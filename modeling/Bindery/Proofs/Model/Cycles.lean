import Mathlib.Data.List.Cycle
import Bindery.Proofs.Model.Building
import Bindery.Proofs.Model.Order
/-!
# Cycles of models

Models can be ordered unless some of them hold one another in a cycle, and what is reported then is
a way into such a cycle and around it (`sortModels_error_iff`).

The items that the search is looking at form a chain in which each requires the next (`Opened`).  An
error arises where the chain would come back to one of its own, so the part of it from there on is a
cycle.
-/

namespace Bindery

open Relation Emitted

/-! ### Where the search fails -/

section

variable {items : List Item} {free : List Place} {path : List Item} {i j : Item}

theorem of_mem_requirements (h : j ∈ i.requirements items) :
    j.tag ≠ i.tag ∧ j.place ∈ i.model.valueDependencies := by
  obtain ⟨p, hp, h⟩ := List.mem_filterMap.1 h
  obtain ⟨hfind, htag⟩ := Option.filter_eq_some_iff.1 h
  have hplace : j.place = p := by simpa using List.find?_some hfind
  exact ⟨by simpa using htag, hplace ▸ hp⟩

/-- The items that are being looked at, outermost first, when the definitions `free` are not. -/
structure Opened (items : List Item) (free : List Place) (path : List Item) : Prop where
  given : ∀ i ∈ path, i ∈ items
  distinct : (path.map Item.place).Nodup
  /-- What is not free is being looked at. -/
  free_iff : ∀ i ∈ items, i.place ∈ free ↔ i.place ∉ path.map Item.place

theorem Opened.nil (items : List Item) : Opened items (items.map Item.place) [] := by
  refine ⟨by simp, by simp, fun i hi => ?_⟩
  simpa using ⟨i, hi, rfl⟩

theorem Opened.snoc (h : Opened items free path) (hi : i ∈ items) (hfree : i.place ∈ free) :
    Opened items (without i.place free) (path ++ [i]) := by
  have hnew : i.place ∉ path.map Item.place := (h.free_iff i hi).1 hfree
  refine ⟨List.forall_mem_append.2 ⟨h.given, List.forall_mem_singleton.2 hi⟩, ?_, fun j hj => ?_⟩
  · rw [List.map_append, List.map_singleton, ← List.concat_eq_append]
    exact h.distinct.concat hnew
  · rw [without, List.mem_filter, h.free_iff j hj, List.map_append, List.mem_append]
    simp

/-- A chain of items that are looked at, and one of them once more. -/
structure Closed (items : List Item) (path : List Item) (i : Item) : Prop where
  given : ∀ j ∈ path, j ∈ items
  distinct : (path.map Item.place).Nodup
  requires : (path ++ [i]).IsChain fun j k => k ∈ j.requirements items
  again : i ∈ items ∧ i.place ∈ path.map Item.place

/-- The names under which a search reports its path. -/
def pathNames (path : List Item) : List String := path.map (·.model.name.qualifiedName)

theorem pathNames_snoc (path : List Item) (i : Item) :
    pathNames (path ++ [i]) = pathNames path ++ [i.model.name.qualifiedName] := by
  simp [pathNames]

/-- **A visit that fails.**  It reports a chain of items that comes back to one of its own. -/
theorem visit_error {s : Emitted} {e : Error} (hi : i ∈ items) (hopen : Opened items free path)
    (hchain : (path ++ [i]).IsChain fun j k => k ∈ j.requirements items)
    (h : visit items free (pathNames path) i s = .error e) :
    ∃ path i, Closed items path i ∧ e = .dependencyCycle (pathNames (path ++ [i])) := by
  generalize hnames : pathNames path = names at h
  induction free, names, i, s using visit.induct generalizing path e with
  | case1 free names i s hhas =>
    rw [visit, if_pos hhas] at h
    cases h
  | case3 free names i s hhas hbusy =>
    rw [visit, if_neg hhas, dif_neg hbusy] at h
    have hmem : i.place ∈ path.map Item.place := not_not.1 (mt (hopen.free_iff i hi).2 hbusy)
    refine ⟨path, i, ⟨hopen.given, hopen.distinct, hchain, hi, hmem⟩, ?_⟩
    rw [pathNames_snoc, hnames, ← Except.error.inj h]
  | case2 free names i s hhas names' hfree =>
    rename_i ih
    rw [visit, if_neg hhas, dif_pos hfree, bind_eq_error] at h
    rcases h with h | ⟨u, -, h⟩
    · obtain ⟨j, hj, u, hu⟩ := exists_of_foldlM_error h
      have hchain' : ((path ++ [i]) ++ [j]).IsChain fun j k => k ∈ j.requirements items :=
        List.isChain_append.2 ⟨hchain, List.isChain_singleton j, by simpa using hj⟩
      have hnames' : pathNames (path ++ [i]) = names ++ [i.model.name.qualifiedName] := by
        rw [pathNames_snoc, hnames]
      exact ih u j (mem_of_mem_requirements hj) (hopen.snoc hi hfree) hchain' hnames' hu
    · cases h

/-- **A search that fails.**  It reports a chain of items that comes back to one of its own. -/
theorem sortItems_error {e : Error} (h : sortItems items = .error e) :
    ∃ path i, Closed items path i ∧ e = .dependencyCycle (pathNames (path ++ [i])) := by
  obtain ⟨i, hi, s, h⟩ := exists_of_foldlM_error h
  exact visit_error hi (Opened.nil items) (List.isChain_singleton i) h

/-- When definitions are there once, what is met again has been left for something else in
between. -/
theorem Closed.exists_eq_append (hnd : (items.map Item.place).Nodup) (h : Closed items path i) :
    ∃ before after, path = before ++ i :: after ∧ after ≠ [] := by
  obtain ⟨j, hj, hji⟩ := List.mem_map.1 h.again.2
  obtain rfl : j = i := eq_of_place_eq hnd (h.given j hj) h.again.1 hji
  obtain ⟨before, after, rfl⟩ := List.append_of_mem hj
  refine ⟨before, after, rfl, ?_⟩
  rintro rfl
  have hchain : (before ++ [j, j]).IsChain fun j k => k ∈ j.requirements items := by
    simpa using h.requires
  exact (of_mem_requirements (List.isChain_pair.1 hchain.right_of_append)).1 rfl

end

/-! ### Cycles of models -/

section

variable {models : List Model}

/-- A cycle of different models of a list, more than one, each of which holds the next by value. -/
structure IsHoldingCycle (models : List Model) (cycle : Cycle Model) : Prop where
  distinct : cycle.Nodup
  several : cycle.Nontrivial
  holds : cycle.Chain (Model.HoldsIn models)

theorem not_isHoldingCycle_of_sortModels {result : List Model} (hnd : (placesOf models).Nodup)
    (h : sortModels models = .ok result) (cycle : Cycle Model) : ¬ IsHoldingCycle models cycle := by
  rintro ⟨-, ⟨m, e, hne, hm, he⟩, hholds⟩
  let R : Model → Model → Prop := fun m e => e = m ∨ e.Before result m
  have htrans : IsTrans Model R := by
    refine ⟨fun a b c hab hbc => ?_⟩
    rcases hab with rfl | hab
    · exact hbc
    · rcases hbc with rfl | hbc
      · exact .inr hab
      · exact .inr (hbc.trans hab)
  have hantisymm : Std.Antisymm R := by
    refine ⟨fun a b hab hba => ?_⟩
    rcases hab with rfl | hab
    · rfl
    · rcases hba with rfl | hba
      · rfl
      · exact absurd hba (Nat.lt_asymm hab)
  have hchain : cycle.Chain R := hholds.imp fun a b hab =>
    eq_or_before_of_chain hnd h (.single hab)
  exact hne (Cycle.forall_eq_of_chain hchain hm he)

theorem holdsIn_of_mem_requirements {i j : Item} (hi : i ∈ itemsOf models)
    (h : j ∈ i.requirements (itemsOf models)) : i.model.HoldsIn models j.model := by
  have hmodel : ∀ k ∈ itemsOf models, k.model ∈ models := fun k hk => by
    have := List.mem_map_of_mem (f := Item.model) hk
    rwa [map_model_itemsOf] at this
  obtain ⟨htop, href⟩ := mem_valueDependencies.1 (of_mem_requirements h).2
  exact ⟨hmodel i hi, hmodel j (mem_of_mem_requirements h), href, htop⟩

theorem Closed.isChain {path : List Item} {i : Item} (h : Closed (itemsOf models) path i) :
    ((path ++ [i]).map (·.model)).IsChain (Model.HoldsIn models) := by
  have hgiven : ∀ j ∈ path ++ [i], j ∈ itemsOf models :=
    List.forall_mem_append.2 ⟨h.given, List.forall_mem_singleton.2 h.again.1⟩
  rw [List.isChain_map]
  refine List.IsChain.imp_of_mem_imp (fun j k hj _ hjk => ?_) h.requires
  exact holdsIn_of_mem_requirements (hgiven j hj) hjk

/-- From an item that is met again, the chain goes around a cycle. -/
theorem Closed.exists_cycle (hnd : (placesOf models).Nodup) {path : List Item} {i : Item}
    (h : Closed (itemsOf models) path i) : ∃ cycle, IsHoldingCycle models cycle := by
  obtain ⟨before, after, rfl, hafter⟩ := h.exists_eq_append (by rwa [map_place_itemsOf])
  have hdistinct : ((i :: after).map (·.model)).Nodup := by
    have hplaces := h.distinct
    rw [List.map_append, List.nodup_append] at hplaces
    refine List.Nodup.of_map (·.name.place) ?_
    rw [List.map_map]
    exact hplaces.2.1
  have hchain : ((i :: (after ++ [i])).map (·.model)).IsChain (Model.HoldsIn models) := by
    have hall := h.isChain
    rw [List.append_assoc, List.map_append] at hall
    exact hall.right_of_append
  refine ⟨((i :: after).map (·.model) : List Model), Cycle.nodup_coe_iff.2 hdistinct, ?_, ?_⟩
  · rw [Cycle.nontrivial_coe_nodup_iff hdistinct]
    have := List.length_pos_of_ne_nil hafter
    simp only [List.length_map, List.length_cons]
    omega
  · rw [List.map_cons, Cycle.chain_coe_cons]
    simpa using hchain

theorem sortModels_error {e : Error} (h : sortModels models = .error e) :
    ∃ path i, Closed (itemsOf models) path i ∧ e = .dependencyCycle (pathNames (path ++ [i])) := by
  unfold sortModels at h
  rw [bind_eq_error] at h
  rcases h with h | ⟨s, -, h⟩
  · exact sortItems_error h
  · cases h

/-- **Cycles of models.**  Models of different definitions are ordered unless some of them form a
cycle in which each holds the next by value; then the error tells a path of models in which each
holds the next and whose last one occurs earlier.  Nested models count as part of the one they are
nested in, and what is held is always of a top-level definition. -/
theorem sortModels_error_iff (hnd : (placesOf models).Nodup) :
    ((∃ names, sortModels models = .error (.dependencyCycle names)) ↔
      ∃ cycle, IsHoldingCycle models cycle) ∧
    ∀ e, sortModels models = .error e → ∃ path : List Model,
      e = .dependencyCycle (path.map (·.name.qualifiedName)) ∧
      path.IsChain (Model.HoldsIn models) ∧ ∃ h : path ≠ [], path.getLast h ∈ path.dropLast := by
  refine ⟨⟨?_, ?_⟩, ?_⟩
  · rintro ⟨names, h⟩
    obtain ⟨path, i, hclosed, -⟩ := sortModels_error h
    exact hclosed.exists_cycle hnd
  · rintro ⟨cycle, hcycle⟩
    cases h : sortModels models with
    | ok result => exact absurd hcycle (not_isHoldingCycle_of_sortModels hnd h cycle)
    | error e =>
      obtain ⟨path, i, -, rfl⟩ := sortModels_error h
      exact ⟨_, rfl⟩
  · intro e h
    obtain ⟨path, i, hclosed, rfl⟩ := sortModels_error h
    obtain ⟨before, after, rfl, -⟩ := hclosed.exists_eq_append (by rwa [map_place_itemsOf])
    refine ⟨((before ++ i :: after) ++ [i]).map (·.model), ?_, hclosed.isChain, ?_⟩
    · rw [List.map_map]
      rfl
    · have hmem : i.model ∈ (before ++ i :: after).map (·.model) := List.mem_map_of_mem (by simp)
      rw [List.map_append, List.map_singleton]
      refine ⟨by simp, ?_⟩
      rwa [List.getLast_append_singleton, List.dropLast_concat]

end

/-! ### Samples -/

namespace OrderSample

/-- Two structs that hold each other, and one that holds the first of them. -/
def loop : List Model := [holder "C" ["A"], holder "A" ["B"], holder "B" ["A"]]

theorem sortModels_error_loop : ∃ names, sortModels loop = .error (.dependencyCycle names) := by
  refine (sortModels_error_iff (by decide)).1.2 ⟨([holder "A" ["B"], holder "B" ["A"]] : List Model), ?_⟩
  have hdistinct : [holder "A" ["B"], holder "B" ["A"]].Nodup := by simp [holder, Sample.nameOf]
  refine ⟨Cycle.nodup_coe_iff.2 hdistinct, (Cycle.nontrivial_coe_nodup_iff hdistinct).2 le_rfl, ?_⟩
  rw [Cycle.chain_coe_cons]
  have hfirst : (holder "A" ["B"]).HoldsIn loop (holder "B" ["A"]) :=
    holdsIn_holder (by simp [loop]) (by simp [loop]) (by simp)
  have hsecond : (holder "B" ["A"]).HoldsIn loop (holder "A" ["B"]) :=
    holdsIn_holder (by simp [loop]) (by simp [loop]) (by simp)
  simp [hfirst, hsecond]

def loopInner (name : String) : Model :=
  { inner name with fields := [("a", .ofBase (.named (Sample.nameOf "A")))] }

def loopOuter : Model := { outer with nested := [loopInner "A_0"] }

/-- A text in which a struct and the one nested in it hold each other. -/
def nestedLoopText : String := "namespace N { struct A { b: _B; struct _B { a: A; } } }"

def nestedLoopRegistry : Registry :=
  let inner : Definition := ⟨"_B", .struct, [⟨"a", .stored (.named "A"), some 1⟩], [], false, false,
    [], none, [], some "m", some 1, []⟩
  ⟨[⟨"N", ⟨"A", .struct, [⟨"b", .stored (.named "_B"), some 1⟩], [], false, false, [], none, [],
    some "m", some 1, [inner]⟩⟩]⟩

/-- **References to nested definitions close no cycle.**  A struct and the one nested in it are
ordered although each holds the other. -/
theorem sortModels_nested_loop :
    ¬ ∀ (file text : String) (reg : Registry) (names : List TypeName) (models : List Model),
      (Registry.ofText file text).result = .ok reg →
      names.mapM (fun n => (reg.build n).result) = .ok models → (placesOf models).Nodup →
      ((∃ names, sortModels models = .error (.dependencyCycle names)) ↔
        ∃ cycle : Cycle Model, cycle.Nodup ∧ cycle.Nontrivial ∧
          cycle.Chain fun a b => a ∈ models ∧ b ∈ models ∧ a.RefersByValue b) := by
  intro hall
  have htext : (Registry.ofText "m" nestedLoopText).result = .ok nestedLoopRegistry := by cbv
  have hbuild : [Sample.nameOf "A", innerName "_B"].mapM
      (fun n => (nestedLoopRegistry.build n).result) = .ok [loopOuter, loopInner "_B"] := by cbv
  have hsort : sortModels [loopOuter, loopInner "_B"] = .ok [loopOuter, loopInner "_B"] := by cbv
  have hdistinct : [loopOuter, loopInner "_B"].Nodup := by
    simp [loopOuter, loopInner, inner, outer, holder, Sample.nameOf, innerName]
  have hout : loopOuter.RefersByValue (loopInner "_B") :=
    ⟨loopOuter, loopOuter.self_mem_walk, ("b", .ofBase (.named (innerName "A_0"))),
      by simp [loopOuter, outer], rfl, rfl⟩
  have hin : (loopInner "_B").RefersByValue loopOuter :=
    ⟨loopInner "_B", (loopInner "_B").self_mem_walk, ("a", .ofBase (.named (Sample.nameOf "A"))),
      by simp [loopInner], rfl, rfl⟩
  obtain ⟨names, herror⟩ := (hall "m" nestedLoopText nestedLoopRegistry _ _ htext hbuild
    (by decide)).2 ⟨([loopOuter, loopInner "_B"] : List Model), Cycle.nodup_coe_iff.2 hdistinct,
      (Cycle.nontrivial_coe_nodup_iff hdistinct).2 le_rfl,
      (Cycle.chain_coe_cons _ _ _).2 (by simp [hout, hin])⟩
  rw [hsort] at herror
  cases herror

end OrderSample

end Bindery
