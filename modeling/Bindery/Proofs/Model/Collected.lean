import Bindery.Proofs.Model.Naming
import Bindery.Proofs.Model.Order
/-!
# Collected dependencies

The dependencies of a model, collected from the inside of one nested model after the other, are those
of the fields along its walk (`dependencies_eq_walk`).  So each of them belongs to a field
(`Reference`), and the dependencies by value are those of the fields without pointers
(`valueDependencies_eq`): a field of a built model never has less than none.
-/

namespace Bindery

namespace Model

/-- A place that a model depends on, with the type of the field that it comes from. -/
structure Reference where
  type : FieldType
  place : Place

variable {m : Model}

/-- The dependencies of a model along its walk, each with its field. -/
def references (m : Model) : List Reference :=
  m.walk.flatMap fun n => n.fields.flatMap fun f => f.2.dependencies.map (.mk f.2)

theorem dependenciesAll_eq (ms : List Model) : dependenciesAll ms = ms.flatMap dependencies := by
  induction ms with
  | nil => rfl
  | cons m ms ih => rw [dependenciesAll, ih, List.flatMap_cons]

theorem dependencies_eq (m : Model) :
    m.dependencies = m.fields.flatMap (·.2.dependencies) ++ m.nested.flatMap dependencies := by
  obtain ⟨_, _, _, _, _, _, _, _, nested, _⟩ := m
  rw [dependencies, dependenciesAll_eq]

/-- Both ways to go through the nested models come to the fields in the same order. -/
theorem dependencies_eq_walk (m : Model) :
    m.dependencies = m.walk.flatMap fun n => n.fields.flatMap (·.2.dependencies) := by
  induction m using nested_induction with
  | step m ih =>
    have hnested : m.nested.flatMap dependencies =
        m.nested.flatMap fun c => c.walk.flatMap fun n => n.fields.flatMap (·.2.dependencies) :=
      List.flatMap_congr ih
    rw [dependencies_eq, walk_eq, List.flatMap_cons, List.flatMap_assoc, hnested]

theorem map_place_references (m : Model) : m.references.map (·.place) = m.dependencies := by
  rw [dependencies_eq_walk, references]
  simp [List.map_flatMap, Function.comp_def]

theorem valueDependencies_eq (h : ∀ n ∈ m.walk, ∀ f ∈ n.fields, 0 ≤ f.2.pointers) :
    m.valueDependencies = (m.references.filter fun r => ¬ 0 < r.type.pointers).map (·.place) := by
  unfold valueDependencies references
  simp only [List.filter_flatMap, List.map_flatMap]
  refine List.flatMap_congr fun n hn => List.flatMap_congr fun f hf => ?_
  have hnonneg := h n hn f hf
  split
  · rename_i hvalue
    rw [List.filter_eq_self.2 (by simp [hvalue])]
    simp [Function.comp_def]
  · rename_i hpointers
    have hpositive : 0 < f.2.pointers := by omega
    rw [List.filter_eq_nil_iff.2 (by simp [hpositive])]
    rfl

end Model

theorem FieldType.base_of_target? {t : FieldType} {n : TypeName} (h : t.target? = some n) :
    t.base = .named n := by
  unfold target? at h
  split at h
  · rename_i hbase
    rw [hbase, Option.some.inj h]
  · cases h

namespace Registry

variable {reg : Registry} {name : TypeName} {m : Model}

theorem BuiltFrom.pointers_nonneg {d : Definition} {children : List Model} {stored : FieldList}
    (h : reg.BuiltFrom name d children stored m) {f : String × FieldType} (hf : f ∈ m.fields) :
    0 ≤ f.2.pointers := by
  rcases h.of_mem_fields hf with heq | ⟨field, -, type, t, -, ht, heq⟩
  · rw [heq]
    exact Int.le_refl 0
  · rw [heq]
    exact pointers_fixDelegate_nonneg ht

theorem mem_topLevel_of_find? {p : Place} {d : Definition} (h : reg.find? p = some d)
    (htop : p.isNested = false) : p ∈ reg.topLevel := by
  rw [Place.eq_of_isNested_eq_false htop, find?_top] at h
  obtain ⟨hentry, hname⟩ := mem_entries_of_lookup? h
  refine List.mem_map.2 ⟨_, hentry, ?_⟩
  rw [Entry.place, hname]
  exact (Place.eq_of_isNested_eq_false htop).symm

/-- What a field of a built model depends on is a top-level definition of the registry: nested ones,
which are written together with their model, are left out. -/
theorem BuiltFrom.mem_topLevel {d : Definition} {children : List Model} {stored : FieldList}
    (h : reg.BuiltFrom name d children stored m) {f : String × FieldType} (hf : f ∈ m.fields)
    {p : Place} (hp : p ∈ f.2.dependencies) : p ∈ reg.topLevel ∧ p.isNested = false := by
  obtain ⟨htarget, htop⟩ := mem_dependencies.1 hp
  obtain ⟨n, hn, rfl⟩ := Option.map_eq_some_iff.1 htarget
  have hbase : f.2.base = .named n := FieldType.base_of_target? hn
  obtain ⟨k, hk, -⟩ := h.has_of_mem_fields hf hbase htop
  exact ⟨mem_topLevel_of_find? hk htop, htop⟩

/-- **Two ways to collect dependencies.**  What a built model depends on are the dependencies of the
fields along its walk, in this order; what it holds by value is what remains of them without those
that come from fields with pointers; and all are top-level definitions of the registry, none of them
nested. -/
theorem WellFormed.dependencies_of_build (hreg : reg.WellFormed)
    (hbuild : (reg.build name).result = .ok m) :
    m.dependencies = m.walk.flatMap (fun n => n.fields.flatMap (·.2.dependencies)) ∧
      m.references.map (·.place) = m.dependencies ∧
      m.valueDependencies = (m.references.filter fun r => ¬ 0 < r.type.pointers).map (·.place) ∧
      ∀ p, p ∈ m.dependencies ∨ p ∈ m.valueDependencies → p ∈ reg.topLevel ∧ p.isNested = false := by
  have hbuilt : ∀ n ∈ m.walk, ∃ d children stored, reg.BuiltFrom n.name d children stored n :=
    fun n hn => hreg.builtFrom (hreg.build_of_mem_walk hbuild hn).1
  have hvalue := Model.valueDependencies_eq fun n hn f hf => by
    obtain ⟨_, _, _, hfrom⟩ := hbuilt n hn
    exact hfrom.pointers_nonneg hf
  refine ⟨m.dependencies_eq_walk, m.map_place_references, hvalue, fun p hp => ?_⟩
  have hdep : p ∈ m.dependencies := by
    refine hp.elim id fun hp => ?_
    rw [hvalue, List.mem_map] at hp
    obtain ⟨r, hr, rfl⟩ := hp
    rw [← m.map_place_references]
    exact List.mem_map_of_mem (List.mem_of_mem_filter hr)
  rw [m.dependencies_eq_walk, List.mem_flatMap] at hdep
  obtain ⟨n, hn, hdep⟩ := hdep
  obtain ⟨f, hf, hdep⟩ := List.mem_flatMap.1 hdep
  obtain ⟨_, _, _, hfrom⟩ := hbuilt n hn
  exact hfrom.mem_topLevel hf hdep

end Registry

/-! ### A sample -/

namespace DependencySample

open Sample (nameOf)

/-- A struct that has a field of an enumeration, and one nested in it with a pointer to it. -/
def linkedRegistry : Registry :=
  let inner : Definition := ⟨"_S", .struct, [⟨"b", .stored (.pointer false (.named "B")), some 1⟩],
    [], false, false, [], none, [], some "m", some 1, []⟩
  ⟨[⟨"N", ⟨"A", .struct, [⟨"b", .stored (.named "B"), some 1⟩, ⟨"s", .stored (.named "_S"), some 1⟩],
      [], false, false, [], none, [], some "m", some 1, [inner]⟩⟩,
    ⟨"N", ⟨"B", .enum, [], [], false, false, [], some "i32", [], some "m", some 1, []⟩⟩]⟩

def leafPlace : Place := ⟨"N", "B", []⟩

def leafBehind (pointers : Int) : FieldType :=
  ⟨.named ⟨leafPlace, .enum, false, "N", "B"⟩, pointers, none, false, none⟩

def insideName : TypeName := ⟨⟨"N", "A", ["_S"]⟩, .struct, false, "N", "A_0"⟩

def linked : Model where
  name := nameOf "A"
  explicitLayout := false
  generics := []
  fields := [("b", leafBehind 0), ("s", .ofBase (.named insideName))]
  constants := []
  signature := none
  isTypedef := false
  guid := .absent
  nested := [⟨insideName, false, [], [("b", leafBehind 1)], [], none, false, .absent, [], .full⟩]
  shape := .full

theorem wellFormed_linked : linkedRegistry.WellFormed where
  topLevel := by decide
  distinct := by
    have hinner : ∀ n : Definition, n.nested = [] → n.Distinct :=
      fun n hn => .intro (by simp [hn]) (by simp [hn])
    refine List.forall_mem_cons.2 ⟨.intro (by decide) ?_, List.forall_mem_singleton.2 (hinner _ rfl)⟩
    exact List.forall_mem_singleton.2 (hinner _ rfl)

theorem build_linked : (linkedRegistry.build (nameOf "A")).result = .ok linked := by cbv

/-- The enumeration is referred to twice and held by value once; the nested struct is no dependency. -/
theorem dependencies_linked :
    linked.dependencies = [leafPlace, leafPlace] ∧ linked.valueDependencies = [leafPlace] ∧
      ∀ p ∈ linked.dependencies, p ∈ linkedRegistry.topLevel := by
  obtain ⟨hwalk, -, hvalue, htop⟩ := wellFormed_linked.dependencies_of_build build_linked
  exact ⟨hwalk.trans (by cbv), hvalue.trans (by cbv), fun p hp => (htop p (.inl hp)).1⟩

end DependencySample

end Bindery
