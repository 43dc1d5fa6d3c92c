import Bindery.Proofs.Model.Cycles
/-!
# Models that are in order already

Ordering changes nothing if it is called for models in order: when the turn of a model comes, all that
it holds by value has been emitted, so no visit emits anything ahead of its turn
(`foldlM_visit_of_sound`).  An order is itself in order, so ordering it again gives it back
(`sortModels_stable`).
-/

namespace Bindery

open Emitted

/-! ### Visits that emit nothing ahead -/

section

variable {items : List Item} {free : List Place} {path : List String} {s : Emitted} {i : Item}

theorem foldlM_visit_emitted {l : List Item} (h : ∀ j ∈ l, j.place ∈ s.map Item.place) :
    l.foldlM (fun s j => visit items free path j s) s = .ok s := by
  induction l with
  | nil => rfl
  | cons j l ih =>
    rw [List.forall_mem_cons] at h
    rw [List.foldlM_cons, visit, if_pos (has_iff.2 h.1)]
    exact ih h.2

/-- A visit emits its item alone if all that this requires has been emitted. -/
theorem visit_of_emitted (hfree : i.place ∈ free) (hnew : i.place ∉ s.map Item.place)
    (hreq : ∀ j ∈ i.requirements items, j.place ∈ s.map Item.place) :
    visit items free path i s = .ok (s ++ [i]) := by
  rw [visit, if_neg (mt has_iff.1 hnew)]
  dsimp only
  rw [dif_pos hfree, foldlM_visit_emitted hreq]
  rfl

/-- **Items in order.**  If each of the items stands behind its requirements, the search emits them
one after the other. -/
theorem foldlM_visit_of_sound (h : Sound items items) {rest : List Item} (hrest : s ++ rest = items) :
    rest.foldlM (fun s i => visit items (items.map Item.place) [] i s) s = .ok items := by
  induction rest generalizing s with
  | nil =>
    rw [← hrest, List.append_nil]
    rfl
  | cons i rest ih =>
    have hi : i ∈ items := by simp [← hrest]
    have hplaces : items.map Item.place = s.map Item.place ++ i.place :: rest.map Item.place := by
      rw [← hrest, List.map_append, List.map_cons]
    have hnew : i.place ∉ s.map Item.place := fun hmem => by
      have hdistinct := h.nodup
      rw [hplaces] at hdistinct
      exact List.disjoint_of_nodup_append hdistinct hmem List.mem_cons_self
    have hposition : position items i.place = s.length := by
      rw [position, hplaces, List.idxOf_append, if_neg hnew]
      simp
    -- what stands before `i` are the items emitted so far
    have hreq : ∀ j ∈ i.requirements items, j.place ∈ s.map Item.place := by
      intro j hj
      have hlt := h.behind i hi j hj
      by_contra hlater
      rw [hposition, position, hplaces, List.idxOf_append, if_neg hlater, List.length_map] at hlt
      omega
    rw [List.foldlM_cons, visit_of_emitted (List.mem_map_of_mem hi) hnew hreq]
    exact ih (by rw [← hrest, List.append_assoc, List.singleton_append])

theorem sortItems_of_sound (h : Sound items items) : sortItems items = .ok items :=
  foldlM_visit_of_sound h (List.nil_append items)

end

/-! ### Models in order -/

section

variable {models result : List Model}

/-- Every model stands behind all others whose definitions it holds by value. -/
def Ordered (models : List Model) : Prop :=
  ∀ m ∈ models, ∀ e ∈ models, e ≠ m → e.name.place ∈ m.valueDependencies → e.Before models m

theorem Ordered.sound (h : Ordered models) (hnd : (placesOf models).Nodup) :
    Sound (itemsOf models) (itemsOf models) := by
  have hplaces := map_place_itemsOf models
  have hmodel : ∀ k ∈ itemsOf models, k.model ∈ models := fun k hk =>
    map_model_itemsOf models ▸ List.mem_map_of_mem hk
  refine ⟨fun _ hi => hi, by rwa [hplaces], fun i hi j hj => ?_⟩
  obtain ⟨htag, hdep⟩ := of_mem_requirements hj
  have hjmem := mem_of_mem_requirements hj
  have hne : j.model ≠ i.model := by
    intro heq
    have hplace : j.place = i.place := congrArg (·.name.place) heq
    have hsame : j = i := eq_of_place_eq (by rwa [hplaces]) hjmem hi hplace
    exact htag (congrArg Item.tag hsame)
  have hbefore := h i.model (hmodel i hi) j.model (hmodel j hjmem) hne hdep
  unfold position
  rwa [hplaces]

theorem ordered_of_sortModels (h : sortModels models = .ok result) : Ordered result :=
  fun _ hm _ he hne hdep => before_of_valueDependency h hm he hne hdep

theorem sortModels_of_ordered (hnd : (placesOf models).Nodup) (h : Ordered models) :
    sortModels models = .ok models :=
  sortModels_eq_ok.2 ⟨itemsOf models, sortItems_of_sound (h.sound hnd), map_model_itemsOf models⟩

/-- **Ordering again.**  A list of models is left as it is if and only if no two of them are of the
same definition and every model stands behind all others whose definitions it holds by value; it may
hold its own.  So whenever models can be ordered, the order is left as it is when it is ordered
again. -/
theorem sortModels_stable :
    (sortModels models = .ok models ↔ (placesOf models).Nodup ∧ Ordered models) ∧
      ∀ result, sortModels models = .ok result → sortModels result = .ok result := by
  refine ⟨⟨fun h => ⟨nodup_of_sortModels h, ordered_of_sortModels h⟩, fun h => ?_⟩, fun result h => ?_⟩
  · exact sortModels_of_ordered h.1 h.2
  · exact sortModels_of_ordered (nodup_of_sortModels h) (ordered_of_sortModels h)

end

/-! ### A sample -/

namespace OrderSample

/-- A struct that holds two others twice over, one of which holds itself; both hold a fourth. -/
def diamond : List Model :=
  [holder "A" ["B", "C", "B"], holder "B" ["D"], holder "C" ["C", "D"], holder "D" []]

/-- The same structs in order. -/
def diamondOrder : List Model :=
  [holder "D" [], holder "B" ["D"], holder "C" ["C", "D"], holder "A" ["B", "C", "B"]]

/-- The structs are not in order; once they are, they stay as they are. -/
theorem sortModels_diamond :
    ¬ Ordered diamond ∧ sortModels diamond = .ok diamondOrder ∧ Ordered diamondOrder ∧
      sortModels diamondOrder = .ok diamondOrder := by
  have hsort : sortModels diamond = .ok diamondOrder := by cbv
  obtain ⟨hkept, hagain⟩ := @sortModels_stable diamond
  obtain ⟨hordered, -⟩ := @sortModels_stable diamondOrder
  refine ⟨fun h => ?_, hsort, (hordered.1 (hagain _ hsort)).2, hagain _ hsort⟩
  have hdistinct : (placesOf diamond).Nodup := by decide
  have heq : diamondOrder = diamond := Except.ok.inj (hsort.symm.trans (hkept.2 ⟨hdistinct, h⟩))
  have hfirst := congrArg (List.map (·.name.name)) heq
  exact absurd hfirst (by decide)

end OrderSample

end Bindery
