import Mathlib
import Bindery.Model.Building
import Bindery.Model.Order
import Bindery.Proofs.Metadata.Registry
/-!
# The order of models

When models can be ordered, the order has each of them once, and each stands behind all that it
holds by value, directly or through others (`sortModels_before`).

The search is followed through what it has emitted so far.  `Sound` holds throughout: every emitted
item stands behind its requirements.  `Grows` says what a visit adds: it never emits a definition
that is being looked at, so the item it was called for has not been emitted when its turn comes.
-/

namespace Bindery

open Relation

/-- If every step stays or goes down, so does every chain of steps. -/
theorem eq_or_lt_of_transGen {α : Type} {R : α → α → Prop} (rank : α → Nat)
    (step : ∀ a b, R a b → b = a ∨ rank b < rank a) {a b : α} (h : TransGen R a b) :
    b = a ∨ rank b < rank a := by
  induction h with
  | single hab => exact step _ _ hab
  | tail _ hbc ih =>
    rcases step _ _ hbc with rfl | hlt
    · exact ih
    · rcases ih with rfl | hlt'
      · exact .inr hlt
      · exact .inr (Nat.lt_trans hlt hlt')

/-! ### Positions -/

def placesOf (models : List Model) : List Place := models.map (·.name.place)

/-- A model stands strictly before another in a list. -/
def Model.Before (models : List Model) (e m : Model) : Prop :=
  (placesOf models).idxOf e.name.place < (placesOf models).idxOf m.name.place

instance (models : List Model) (e m : Model) : Decidable (e.Before models m) :=
  inferInstanceAs (Decidable (_ < _))

theorem Model.Before.trans {models : List Model} {a b c : Model} (h : a.Before models b)
    (h' : b.Before models c) : a.Before models c :=
  Nat.lt_trans h h'

/-! ### What is emitted -/

namespace Emitted

/-- The position of a definition among those emitted. -/
def position (s : Emitted) (p : Place) : Nat := (s.map Item.place).idxOf p

theorem has_iff {s : Emitted} {p : Place} : s.has p = true ↔ p ∈ s.map Item.place := by
  simp [has]

theorem position_lt_length {s : Emitted} {p : Place} :
    s.position p < s.length ↔ p ∈ s.map Item.place := by
  rw [← List.idxOf_lt_length_iff, List.length_map]
  rfl

theorem position_append {s : Emitted} {p : Place} (h : p ∈ s.map Item.place) (t : Emitted) :
    position (s ++ t) p = s.position p := by
  unfold position
  rw [List.map_append, List.idxOf_append, if_pos h]

/-- What holds of the emitted items throughout the search. -/
structure Sound (items : List Item) (s : Emitted) : Prop where
  /-- Only given items are emitted. -/
  given : ∀ i ∈ s, i ∈ items
  /-- No definition is emitted twice. -/
  nodup : (s.map Item.place).Nodup
  /-- Every item stands behind its requirements. -/
  behind : ∀ i ∈ s, ∀ j ∈ i.requirements items, s.position j.place < s.position i.place

/-- What a visit adds, given the definitions that are not being looked at. -/
structure Grows (free : List Place) (s t : Emitted) : Prop where
  /-- Nothing emitted is taken back or moved. -/
  start : s <+: t
  /-- Only free definitions are added. -/
  added : ∀ i ∈ t, i ∈ s ∨ i.place ∈ free

variable {items : List Item} {free : List Place} {s t u : Emitted}

theorem Grows.refl (free : List Place) (s : Emitted) : Grows free s s :=
  ⟨List.prefix_refl s, fun _ h => .inl h⟩

theorem Grows.trans (h : Grows free s t) (h' : Grows free t u) : Grows free s u := by
  refine ⟨h.start.trans h'.start, fun i hi => ?_⟩
  rcases h'.added i hi with ht | hf
  · exact h.added i ht
  · exact .inr hf

theorem Grows.mem (h : Grows free s t) {p : Place} (hp : p ∈ s.map Item.place) :
    p ∈ t.map Item.place :=
  List.map_subset _ h.start.subset hp

theorem Sound.nil (items : List Item) : Sound items [] := by
  refine ⟨by simp, by simp, by simp⟩

theorem Sound.snoc (hs : Sound items s) {i : Item} (hi : i ∈ items)
    (hreq : ∀ j ∈ i.requirements items, j.place ∈ s.map Item.place)
    (hnew : i.place ∉ s.map Item.place) : Sound items (s ++ [i]) := by
  refine ⟨List.forall_mem_append.2 ⟨hs.given, List.forall_mem_singleton.2 hi⟩, ?_, ?_⟩
  · rw [List.map_append, List.map_singleton, ← List.concat_eq_append]
    exact hs.nodup.concat hnew
  · have hlast : position (s ++ [i]) i.place = s.length := by
      unfold position
      rw [List.map_append, List.idxOf_append, if_neg hnew]
      simp
    intro j hj k hk
    rcases List.mem_append.1 hj with hj | hj
    · have hjs : j.place ∈ s.map Item.place := List.mem_map_of_mem hj
      have hlt := hs.behind j hj k hk
      have hks : k.place ∈ s.map Item.place :=
        position_lt_length.1 (Nat.lt_trans hlt (position_lt_length.2 hjs))
      rw [position_append hjs, position_append hks]
      exact hlt
    · rw [List.mem_singleton.1 hj] at hk ⊢
      rw [hlast, position_append (hreq k hk)]
      exact position_lt_length.2 (hreq k hk)

end Emitted

open Emitted

/-! ### What a visit does -/

section

variable {items : List Item}

theorem mem_of_mem_requirements {i j : Item} (h : j ∈ i.requirements items) : j ∈ items := by
  obtain ⟨p, -, h⟩ := List.mem_filterMap.1 h
  exact List.mem_reverse.1 (List.mem_of_find?_eq_some (Option.filter_eq_some_iff.1 h).1)

/-- Visits one after the other: if each keeps the emitted items sound and emits its own, so do
all. -/
theorem foldlM_visit (free : List Place) {f : Emitted → Item → Except Error Emitted} {l : List Item}
    (step : ∀ j ∈ l, ∀ s t : Emitted, s.Sound items → f s j = .ok t →
      t.Sound items ∧ Grows free s t ∧ j.place ∈ t.map Item.place)
    {s t : Emitted} (hs : s.Sound items) (h : l.foldlM f s = .ok t) :
    t.Sound items ∧ Grows free s t ∧ ∀ j ∈ l, j.place ∈ t.map Item.place := by
  induction l generalizing s with
  | nil =>
    cases h
    exact ⟨hs, Grows.refl free _, by simp⟩
  | cons j l ih =>
    rw [List.foldlM_cons, bind_eq_ok] at h
    obtain ⟨u, hu, h⟩ := h
    obtain ⟨hus, hgrow, hj⟩ := step j (by simp) s u hs hu
    obtain ⟨hts, hgrow', hl⟩ := ih (fun k hk => step k (by simp [hk])) hus h
    refine ⟨hts, hgrow.trans hgrow', fun k hk => ?_⟩
    rcases List.mem_cons.1 hk with rfl | hk
    · exact hgrow'.mem hj
    · exact hl k hk

/-- **A visit.**  It keeps the emitted items sound, adds free definitions only, and leaves its item
emitted. -/
theorem visit_ok {free : List Place} {path : List String} {i : Item} {s t : Emitted}
    (hi : i ∈ items) (hs : s.Sound items) (h : visit items free path i s = .ok t) :
    t.Sound items ∧ Grows free s t ∧ i.place ∈ t.map Item.place := by
  induction free, path, i, s using visit.induct generalizing t with
  | case1 free path i s hhas =>
    rw [visit, if_pos hhas] at h
    cases h
    exact ⟨hs, Grows.refl free _, has_iff.1 hhas⟩
  | case3 free path i s hhas hopen =>
    rw [visit, if_neg hhas, dif_neg hopen] at h
    cases h
  | case2 free path i s hhas path' hfree =>
    rename_i ih
    rw [visit, if_neg hhas, dif_pos hfree, bind_eq_ok] at h
    obtain ⟨u, hu, h⟩ := h
    cases h
    obtain ⟨hus, hgrow, hreq⟩ := foldlM_visit (without i.place free)
      (fun j hj s t hs h => ih s j (mem_of_mem_requirements hj) hs h) hs hu
    -- the visits of the requirements cannot have emitted `i`, which was not free for them
    have hnew : i.place ∉ u.map Item.place := by
      intro hmem
      obtain ⟨k, hk, hki⟩ := List.mem_map.1 hmem
      rcases hgrow.added k hk with hks | hkf
      · exact hhas (has_iff.2 (hki ▸ List.mem_map_of_mem hks))
      · rw [hki] at hkf
        simp [without] at hkf
    refine ⟨hus.snoc hi hreq hnew, ⟨hgrow.start.trans (List.prefix_append u [i]), ?_⟩, by simp⟩
    intro k hk
    rcases List.mem_append.1 hk with hk | hk
    · rcases hgrow.added k hk with hks | hkf
      · exact .inl hks
      · exact .inr (List.mem_filter.1 hkf).1
    · rw [List.mem_singleton.1 hk]
      exact .inr hfree

/-- **The whole search.**  It emits every given item, each behind its requirements. -/
theorem sortItems_ok {s : List Item} (h : sortItems items = .ok s) :
    Sound items s ∧ ∀ i ∈ items, i.place ∈ s.map Item.place := by
  obtain ⟨hs, -, hall⟩ := foldlM_visit _ (fun j hj s t hs h => visit_ok hj hs h) (Sound.nil items) h
  exact ⟨hs, hall⟩

/-! ### Items with one for each definition -/

theorem eq_of_place_eq (hnd : (items.map Item.place).Nodup) {i j : Item} (hi : i ∈ items)
    (hj : j ∈ items) (h : i.place = j.place) : i = j :=
  List.inj_on_of_nodup_map hnd hi hj h

/-- A definition that is held by value and that the items have is that of a requirement, or of the
item itself. -/
theorem exists_requirement {i j : Item} (hj : j ∈ items)
    (hdep : j.place ∈ i.model.valueDependencies) :
    ∃ k ∈ items, k.place = j.place ∧ (k.tag ≠ i.tag → k ∈ i.requirements items) := by
  have hsome : (items.reverse.find? (·.place = j.place)).isSome := by
    rw [List.find?_isSome]
    exact ⟨j, List.mem_reverse.2 hj, by simp⟩
  obtain ⟨k, hk⟩ := Option.isSome_iff_exists.1 hsome
  have hkj : k.place = j.place := by simpa using List.find?_some hk
  refine ⟨k, List.mem_reverse.1 (List.mem_of_find?_eq_some hk), hkj, fun hne => ?_⟩
  refine List.mem_filterMap.2 ⟨j.place, hdep, ?_⟩
  rw [hk]
  simp [hne]

theorem perm_of_sortItems (hnd : (items.map Item.place).Nodup) {s : List Item}
    (h : sortItems items = .ok s) : s.Perm items := by
  obtain ⟨hs, hall⟩ := sortItems_ok h
  refine (List.perm_ext_iff_of_nodup hs.nodup.of_map hnd.of_map).2 fun i => ⟨hs.given i, fun hi => ?_⟩
  obtain ⟨j, hj, hji⟩ := List.mem_map.1 (hall i hi)
  rwa [← eq_of_place_eq hnd (hs.given j hj) hi hji]

end

/-! ### Ordering models -/

section

variable {models result : List Model}

def itemsOf (models : List Model) : List Item := models.mapIdx fun k m => ⟨k, m⟩

theorem map_model_itemsOf (models : List Model) : (itemsOf models).map (·.model) = models := by
  refine List.ext_getElem (by simp [itemsOf]) fun k _ _ => ?_
  simp [itemsOf]

theorem map_place_itemsOf (models : List Model) :
    (itemsOf models).map Item.place = placesOf models := by
  conv_rhs => rw [← map_model_itemsOf models]
  rw [placesOf, List.map_map]
  rfl

theorem tag_inj_itemsOf {i j : Item} (hi : i ∈ itemsOf models) (hj : j ∈ itemsOf models)
    (h : i.tag = j.tag) : i = j := by
  obtain ⟨k, hk, rfl⟩ := List.mem_mapIdx.1 hi
  obtain ⟨l, hl, rfl⟩ := List.mem_mapIdx.1 hj
  cases h
  rfl

theorem sortModels_eq_ok :
    sortModels models = .ok result ↔
      ∃ s, sortItems (itemsOf models) = .ok s ∧ s.map (·.model) = result := by
  unfold sortModels
  rw [bind_eq_ok]
  simp [pure, Except.pure, itemsOf]

/-- **The models stay the same.**  An order has each of the models once. -/
theorem perm_of_sortModels (hnd : (placesOf models).Nodup) (h : sortModels models = .ok result) :
    result.Perm models := by
  obtain ⟨s, hs, rfl⟩ := sortModels_eq_ok.1 h
  have := (perm_of_sortItems (by rwa [map_place_itemsOf]) hs).map (·.model)
  rwa [map_model_itemsOf] at this

theorem nodup_of_sortModels (h : sortModels models = .ok result) : (placesOf result).Nodup := by
  obtain ⟨s, hs, rfl⟩ := sortModels_eq_ok.1 h
  have hnodup := (sortItems_ok hs).1.nodup
  rw [placesOf, List.map_map]
  exact hnodup

/-- **One step.**  In an order a model stands behind every other one whose definition it holds by
value. -/
theorem before_of_valueDependency (h : sortModels models = .ok result) {m e : Model}
    (hm : m ∈ result) (he : e ∈ result) (hne : e ≠ m)
    (hdep : e.name.place ∈ m.valueDependencies) : e.Before result m := by
  obtain ⟨s, hs, rfl⟩ := sortModels_eq_ok.1 h
  have hsound := (sortItems_ok hs).1
  obtain ⟨i, hi, rfl⟩ := List.mem_map.1 hm
  obtain ⟨j, hj, rfl⟩ := List.mem_map.1 he
  obtain ⟨k, hk, hkj, hrequired⟩ := exists_requirement (hsound.given j hj) hdep
  have htag : k.tag ≠ i.tag := by
    intro heq
    obtain rfl : k = i := tag_inj_itemsOf hk (hsound.given i hi) heq
    exact hne (congrArg Item.model (eq_of_place_eq hsound.nodup hj hi hkj.symm))
  have hlt := hsound.behind i hi k (hrequired htag)
  rw [hkj] at hlt
  unfold Model.Before placesOf
  rwa [List.map_map]

end

/-! ### Chains of models that hold one another -/

namespace Model

/-- A model refers by value to the definition of another: a field of it or of a nested model is of
that definition and not behind a pointer. -/
def RefersByValue (m e : Model) : Prop :=
  ∃ n ∈ m.walk, ∃ f ∈ n.fields, f.2.pointers = 0 ∧ f.2.target?.map (·.place) = some e.name.place

/-- One step of a chain among models, to a model of a top-level definition. -/
def HoldsIn (models : List Model) (m e : Model) : Prop :=
  m ∈ models ∧ e ∈ models ∧ m.RefersByValue e ∧ e.name.place.isNested = false

end Model

theorem mem_dependencies {t : FieldType} {p : Place} :
    p ∈ t.dependencies ↔ t.target?.map (·.place) = some p ∧ p.isNested = false := by
  unfold FieldType.dependencies FieldType.refersToNested
  cases t.target? with
  | none => simp
  | some n =>
    simp only [Option.any_some, Option.toList_some, Option.map_some, Option.some.injEq]
    constructor
    · intro h
      split at h
      · simp at h
      · rename_i htop
        obtain rfl : p = n.place := by simpa using h
        exact ⟨rfl, by simpa using htop⟩
    · rintro ⟨rfl, h⟩
      simp [h]

theorem mem_valueDependencies {m : Model} {p : Place} :
    p ∈ m.valueDependencies ↔ p.isNested = false ∧ ∃ n ∈ m.walk, ∃ f ∈ n.fields,
      f.2.pointers = 0 ∧ f.2.target?.map (·.place) = some p := by
  unfold Model.valueDependencies
  simp only [List.mem_flatMap]
  constructor
  · rintro ⟨n, hn, f, hf, h⟩
    split at h
    · obtain ⟨ht, hp⟩ := mem_dependencies.1 h
      exact ⟨hp, n, hn, f, hf, ‹_›, ht⟩
    · simp at h
  · rintro ⟨hp, n, hn, f, hf, h0, ht⟩
    refine ⟨n, hn, f, hf, ?_⟩
    rw [if_pos h0]
    exact mem_dependencies.2 ⟨ht, hp⟩

section

variable {models result : List Model}

theorem before_of_holdsIn (hnd : (placesOf models).Nodup) (h : sortModels models = .ok result)
    {m e : Model} (hne : e ≠ m) (hh : m.HoldsIn models e) : e.Before result m := by
  obtain ⟨hm, he, href, htop⟩ := hh
  have hperm := perm_of_sortModels hnd h
  exact before_of_valueDependency h (hperm.mem_iff.2 hm) (hperm.mem_iff.2 he) hne
    (mem_valueDependencies.2 ⟨htop, href⟩)

theorem eq_or_before_of_chain (hnd : (placesOf models).Nodup) (h : sortModels models = .ok result)
    {m e : Model} (hchain : TransGen (Model.HoldsIn models) m e) : e = m ∨ e.Before result m := by
  refine eq_or_lt_of_transGen (fun m => (placesOf result).idxOf m.name.place) ?_ hchain
  intro a b hstep
  by_cases hba : b = a
  · exact .inl hba
  · exact .inr (before_of_holdsIn hnd h hba hstep)

/-- **Ordered models.**  When models of different definitions can be ordered, the order is one of the
same models, and a model stands strictly before every other one from which a chain of references by
value leads to it.  The chain goes through models of the list, nested models count as part of the
one they are nested in, and each reference is to a top-level definition. -/
theorem sortModels_before (hnd : (placesOf models).Nodup) (h : sortModels models = .ok result) :
    result.Perm models ∧
      ∀ m ∈ models, ∀ e ∈ models, e ≠ m → TransGen (Model.HoldsIn models) m e →
        e.Before result m := by
  refine ⟨perm_of_sortModels hnd h, fun m _ e _ hne hchain => ?_⟩
  exact (eq_or_before_of_chain hnd h hchain).resolve_left hne

end

/-! ### Samples -/

namespace OrderSample

open Sample (nameOf)

/-- A struct that holds others by value. -/
def holder (name : String) (held : List String) : Model where
  name := nameOf name
  explicitLayout := false
  generics := []
  fields := held.map fun other => (other, .ofBase (.named (nameOf other)))
  constants := []
  signature := none
  isTypedef := false
  guid := .absent
  nested := []
  shape := .full

theorem holdsIn_holder {models : List Model} {name other : String} {held held' : List String}
    (hm : holder name held ∈ models) (he : holder other held' ∈ models) (h : other ∈ held) :
    (holder name held).HoldsIn models (holder other held') := by
  refine ⟨hm, he, ⟨holder name held, by simp [holder, Model.walk], ?_⟩, rfl⟩
  exact ⟨(other, .ofBase (.named (nameOf other))), List.mem_map_of_mem h, rfl, rfl⟩

/-- A chain of three structs, given in the wrong order. -/
def chain : List Model := [holder "A" ["B"], holder "B" ["C"], holder "C" []]

/-- At the end of the chain stands what comes first. -/
theorem sortModels_before_chain :
    (holder "C" []).Before chain.reverse (holder "A" ["B"]) := by
  have hsort : sortModels chain = .ok chain.reverse := by cbv
  refine (sortModels_before (by decide) hsort).2 _ (by simp [chain]) _ (by simp [chain])
    (by simp [holder, nameOf]) ?_
  have hfirst : (holder "A" ["B"]).HoldsIn chain (holder "B" ["C"]) :=
    holdsIn_holder (by simp [chain]) (by simp [chain]) (by simp)
  have hsecond : (holder "B" ["C"]).HoldsIn chain (holder "C" []) :=
    holdsIn_holder (by simp [chain]) (by simp [chain]) (by simp)
  exact .tail (.single hfirst) hsecond

def innerName (name : String) : TypeName := ⟨⟨"N", "A", ["_B"]⟩, .struct, false, "N", name⟩

def inner (name : String) : Model :=
  { holder "_B" [] with name := innerName name, fields := [("x", .ofPrimitive .u8)] }

/-- The model of `A`, which holds the struct nested in it. -/
def outer : Model :=
  { holder "A" [] with
    fields := [("b", .ofBase (.named (innerName "A_0")))]
    nested := [inner "A_0"] }

def nestedText : String := "namespace N { struct A { b: _B; struct _B { x: u8; } } }"

def nestedRegistry : Registry :=
  let inner : Definition := ⟨"_B", .struct, [⟨"x", .stored (.named "u8"), some 1⟩], [], false, false,
    [], none, [], some "m", some 1, []⟩
  ⟨[⟨"N", ⟨"A", .struct, [⟨"b", .stored (.named "_B"), some 1⟩], [], false, false, [], none, [],
    some "m", some 1, [inner]⟩⟩]⟩

theorem ofText_nestedText : (Registry.ofText "m" nestedText).result = .ok nestedRegistry := by cbv

theorem build_nestedRegistry :
    [nameOf "A", innerName "_B"].mapM (fun n => (nestedRegistry.build n).result) =
      .ok [outer, inner "_B"] := by cbv

/-- **References to nested definitions do not count.**  A nested struct that is ordered together
with the one that holds it stays behind it. -/
theorem sortModels_nested_behind :
    ¬ ∀ (file text : String) (reg : Registry) (names : List TypeName) (models result : List Model),
      (Registry.ofText file text).result = .ok reg →
      names.mapM (fun n => (reg.build n).result) = .ok models →
      (placesOf models).Nodup → sortModels models = .ok result →
      ∀ m ∈ models, ∀ e ∈ models, e ≠ m →
        TransGen (fun a b => a ∈ models ∧ b ∈ models ∧ a.RefersByValue b) m e →
        e.Before result m := by
  intro hall
  have hsort : sortModels [outer, inner "_B"] = .ok [outer, inner "_B"] := by cbv
  have hrefers : outer.RefersByValue (inner "_B") :=
    ⟨outer, by simp [outer, holder, Model.walk], ("b", .ofBase (.named (innerName "A_0"))),
      by simp [outer], rfl, rfl⟩
  have hbefore := hall "m" nestedText nestedRegistry _ _ _ ofText_nestedText build_nestedRegistry
    (by decide) hsort outer (by simp) (inner "_B") (by simp)
    (by simp [outer, inner, holder, nameOf, innerName])
    (.single ⟨by simp, by simp, hrefers⟩)
  exact absurd hbefore (by decide)

end OrderSample

end Bindery
