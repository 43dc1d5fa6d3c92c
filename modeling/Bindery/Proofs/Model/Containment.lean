import Bindery.Proofs.Command.Steps
import Bindery.Proofs.Model.Building
import Bindery.Proofs.Model.Order
/-!
# Containment by value

Which structs and unions contain which others by value, as the definitions say it, and what is known
when the models of all of them could be built and ordered: no two different ones
contain each other.

The order decides.  Containment takes the definitions to what the models hold by value, so what is
contained stands before what contains it, unless they are the same.
-/

namespace Bindery

open Relation

namespace Registry

variable {reg : Registry}

/-! ### What is contained -/

def IsTarget (reg : Registry) (p : Place) : Prop :=
  p.isNested = false ∧ ∃ d, reg.find? p = some d ∧ d.category = .struct

/-- A struct or union at the top level contains another by value: it, or a definition inside it at
any depth, has a field of the other. -/
def Contains (reg : Registry) (p q : Place) : Prop :=
  reg.IsTarget p ∧ q.isNested = false ∧
    ∃ steps n, reg.HoldsByValue (p.within steps) n ∧ n.place = q

theorem Contains.isTarget {p q : Place} (h : reg.Contains p q) : reg.IsTarget q := by
  obtain ⟨-, htop, steps, n, ⟨d, f, type, t, -, -, -, ht, hn, hstruct, -⟩, rfl⟩ := h
  obtain ⟨e, he, hname⟩ := has_of_resolveStored ht hn
  refine ⟨htop, e, he, ?_⟩
  rw [hname] at hstruct
  exact hstruct

/-! ### What models hold -/

theorem WellFormed.exists_field_of_holdsByValue (hreg : reg.WellFormed) {name n : TypeName}
    {m : Model} (h : (reg.build name).result = .ok m)
    (hspace : name.space = "" ∨ name.space = name.place.space)
    (hholds : reg.HoldsByValue name.place n) :
    ∃ f ∈ m.fields, f.2.pointers = 0 ∧ f.2.target?.map (·.place) = some n.place := by
  obtain ⟨d, children, stored, hm⟩ := hreg.builtFrom h
  obtain ⟨d', f, type, t, hd, hf, hkind, ht, hn, hstruct, hpointers⟩ := hholds
  obtain rfl : d = d' := by simpa [hm.found] using hd
  obtain ⟨u, hu, x, hx⟩ := hm.exists_field hf hkind
  have hown : u.own = t := by
    have hplain := resolveStored_own (hm.faithful hspace) f type
    rw [hu] at hplain
    exact Except.ok.inj (hplain.symm.trans ht)
  subst hown
  obtain ⟨n', hbase, rfl⟩ := BaseType.own_eq_named.1 hn
  rw [FieldType.fixDelegate_of_struct hbase hstruct] at hx
  exact ⟨_, hx, hpointers, by simp [FieldType.target?, hbase, TypeName.own]⟩

/-- What a definition contains by value is among what its model holds. -/
theorem WellFormed.mem_valueDependencies_of_contains (hreg : reg.WellFormed) {name : TypeName}
    {m : Model} {q : Place} (h : (reg.build name).result = .ok m)
    (hspace : name.space = name.place.space) (hcontains : reg.Contains name.place q) :
    q ∈ m.valueDependencies := by
  obtain ⟨-, htop, steps, n, hholds, rfl⟩ := hcontains
  obtain ⟨inner, hinner⟩ : ∃ d, reg.find? (name.place.within steps) = some d := by
    obtain ⟨d, -, -, -, hd, -⟩ := hholds
    exact ⟨d, hd⟩
  obtain ⟨k, hk, hplace⟩ := hreg.exists_mem_walk h hinner
  obtain ⟨hbuild, hkspace, -⟩ := hreg.build_of_mem_walk h hk
  have hown : k.name.space = k.name.place.space := by
    rw [hkspace, hspace, hplace]
    rfl
  rw [← hplace] at hholds
  exact mem_valueDependencies.2
    ⟨htop, k, hk, hreg.exists_field_of_holdsByValue hbuild (.inr hown) hholds⟩

end Registry

/-! ### The models of a registry -/

namespace Command.Conversion

variable {reg : Registry} {models : List Model}

theorem exists_mem_targets {p : Place} (h : reg.IsTarget p) :
    ∃ d, reg.find? p = some d ∧ TypeName.ofDefinition p d ∈ targets reg none := by
  obtain ⟨htop, d, hd, hstruct⟩ := h
  refine ⟨d, hd, List.mem_filterMap.2 ⟨⟨p.space, d⟩, ?_, ?_⟩⟩
  · rw [Place.eq_of_isNested_eq_false htop, Registry.find?_top] at hd
    exact (Registry.mem_entries_of_lookup? hd).1
  · have hplace : (⟨p.space, d⟩ : Entry).place = p := by
      rw [Entry.place, Registry.name_of_find? hd, Place.eq_of_isNested_eq_false htop]
      rfl
    simp [hstruct, hplace]

theorem map_place_targets_sublist (reg : Registry) (space : Option String) :
    ((targets reg space).map (·.place)).Sublist reg.topLevel := by
  unfold targets Registry.topLevel
  induction reg.entries with
  | nil => exact .slnil
  | cons e entries ih =>
    rw [List.filterMap_cons, List.map_cons]
    split
    · exact ih.cons _
    · rename_i n hn
      split at hn
      · cases hn
        exact ih.cons_cons _
      · cases hn

theorem exists_built_of_orderedModels {names : List TypeName}
    (h : (orderedModels reg names).result = .ok models) :
    ∃ built, List.Forall₂ (fun n m => (reg.build n).result = .ok m) names built ∧
      placesOf built = names.map (·.place) ∧ sortModels built = .ok models := by
  unfold orderedModels at h
  simp only [Traced.result_bind, Traced.result_lift, Traced.result_mapM, bind_eq_ok', mapM_eq_ok]
    at h
  obtain ⟨built, hbuilt, hsort⟩ := h
  refine ⟨built, hbuilt, ?_, hsort⟩
  have hnames := hbuilt.imp fun _ _ hm => Registry.name_of_build hm
  clear hbuilt hsort
  induction hnames with
  | nil => rfl
  | cons hname _ ih => rw [List.map_cons, ← ih, ← hname]; rfl

theorem mem_orderedModels (hreg : reg.WellFormed) {space : Option String}
    (h : (orderedModels reg (targets reg space)).result = .ok models) {m : Model} :
    m ∈ models ↔ ∃ name ∈ targets reg space, (reg.build name).result = .ok m := by
  obtain ⟨built, hbuilt, hplaces, hsort⟩ := exists_built_of_orderedModels h
  have hnd : (placesOf built).Nodup :=
    hplaces ▸ (map_place_targets_sublist reg space).nodup hreg.topLevel
  rw [(perm_of_sortModels hnd hsort).mem_iff]
  refine ⟨exists_of_mem_right hbuilt, ?_⟩
  rintro ⟨name, hname, hbuild⟩
  obtain ⟨e, he, hbuild'⟩ := exists_of_mem_left hbuilt hname
  cases hbuild.symm.trans hbuild'
  exact he

/-- What is contained is the same or stands before. -/
theorem eq_or_idxOf_lt_of_contains (hreg : reg.WellFormed)
    (h : (orderedModels reg (targets reg none)).result = .ok models) {p q : Place}
    (hcontains : reg.Contains p q) :
    q = p ∨ (placesOf models).idxOf q < (placesOf models).idxOf p := by
  obtain ⟨built, hbuilt, hplaces, hsort⟩ := exists_built_of_orderedModels h
  have hnd : (placesOf built).Nodup :=
    hplaces ▸ (map_place_targets_sublist reg none).nodup hreg.topLevel
  obtain ⟨d, -, hp⟩ := exists_mem_targets hcontains.1
  obtain ⟨m, hm, hbuild⟩ := exists_of_mem_left hbuilt hp
  obtain ⟨d', -, hq⟩ := exists_mem_targets hcontains.isTarget
  obtain ⟨e, he, hbuild'⟩ := exists_of_mem_left hbuilt hq
  have hmplace : m.name.place = p := by rw [Registry.name_of_build hbuild]; rfl
  have heplace : e.name.place = q := by rw [Registry.name_of_build hbuild']; rfl
  by_cases hqp : q = p
  · exact .inl hqp
  · right
    have hdep := hreg.mem_valueDependencies_of_contains hbuild rfl hcontains
    have hne : e ≠ m := by
      rintro rfl
      exact hqp (heplace.symm.trans hmplace)
    have hperm := perm_of_sortModels hnd hsort
    have hbefore := before_of_valueDependency hsort (hperm.mem_iff.2 hm) (hperm.mem_iff.2 he) hne
      (heplace ▸ hdep)
    rwa [Model.Before, hmplace, heplace] at hbefore

/-- **No mutual containment.**  When the models of a loaded text have been built and ordered without
a limit to a namespace, of two different structs or unions at most one contains the other by value,
directly or through others. -/
theorem not_contains_of_contains {file text : String} {c c' : Conversion} {w w' : Workspace}
    (htext : (Registry.ofText file text).result = .ok reg) (hloaded : c.loaded = some reg)
    (hspace : c.settings.space = none) (hbuild : exec build c w = ((.ok true, c'), w')) {p q : Place}
    (hne : p ≠ q) (hcontains : TransGen reg.Contains p q) : ¬ TransGen reg.Contains q p := by
  cases hmodels : models? reg c.settings.space with
  | none =>
    obtain ⟨r, hr, lines, hrun⟩ := speaks_build_of_none (w := w) hloaded hmodels
    rw [hbuild] at hrun
    cases hrun
    exact absurd rfl hr
  | some models =>
    rw [hspace] at hmodels
    have hordered := (models?_eq_some.1 hmodels).2
    have hstep : ∀ a b, reg.Contains a b →
        b = a ∨ (placesOf models).idxOf b < (placesOf models).idxOf a := fun _ _ =>
      eq_or_idxOf_lt_of_contains (Registry.wellFormed_of_ofText htext) hordered
    intro hback
    rcases eq_or_lt_of_transGen _ hstep hcontains with heq | hlt
    · exact hne heq.symm
    · rcases eq_or_lt_of_transGen _ hstep hback with heq | hlt'
      · exact hne heq
      · exact Nat.lt_asymm hlt hlt'

end Command.Conversion

/-! ### Samples -/

namespace ContainmentSample

open Command Conversion
open Sample (entry nameOf)

theorem exists_exec_build {reg : Registry} (h : (models? reg none).isSome) (w : Workspace) :
    ∃ c' w', exec build (loadedWith reg) w = ((.ok true, c'), w') := by
  obtain ⟨models, hmodels⟩ := Option.isSome_iff_exists.1 h
  obtain ⟨lines, hrun⟩ := speaks_build_of_some (c := loadedWith reg) (w := w) rfl hmodels
  exact ⟨_, _, hrun⟩

/-- A struct with an array of unions. -/
def arrayText : String := "namespace N { struct A { b: [B; 2]; } union B { x: u8; } }"

def arrayRegistry : Registry :=
  ⟨[entry "A" false [("b", .array (.named "B") (.int 2))], entry "B" true [("x", .named "u8")]]⟩

/-- The union does not contain the struct. -/
theorem not_contains_arrayRegistry :
    ¬ TransGen arrayRegistry.Contains (nameOf "B").place (nameOf "A").place := by
  have htext : (Registry.ofText "m" arrayText).result = .ok arrayRegistry := by cbv
  have hmodels : (models? arrayRegistry none).isSome := by cbv
  obtain ⟨c', w', hbuild⟩ := exists_exec_build hmodels (.empty [])
  have hholds : arrayRegistry.HoldsByValue ⟨"N", "A", []⟩ (nameOf "B") := by
    refine ⟨_, ⟨"b", .stored (.array (.named "B") (.int 2)), some 1⟩, .array (.named "B") (.int 2),
      ⟨.named (nameOf "B"), 0, some (.int 2), false, none⟩, rfl, by simp [entry], rfl, ?_, rfl, rfl,
      rfl⟩
    cbv
  exact not_contains_of_contains htext rfl rfl hbuild (by decide)
    (.single ⟨⟨rfl, _, rfl, rfl⟩, rfl, [], nameOf "B", hholds, rfl⟩)

/-- A union with itself as a field. -/
def loopText : String := "namespace N { union U { a: U; } }"

def loopRegistry : Registry := ⟨[entry "U" true [("a", .named "U")]]⟩

/-- **A definition can contain itself.**  The order does not mind, and nothing else looks at the
fields of a union. -/
theorem build_contains_itself :
    ¬ ∀ (file text : String) (reg : Registry) (c c' : Conversion) (w w' : Workspace),
      (Registry.ofText file text).result = .ok reg → c.loaded = some reg →
      c.settings.space = none → exec build c w = ((.ok true, c'), w') →
      ∀ p, ¬ TransGen reg.Contains p p := by
  intro hall
  have htext : (Registry.ofText "m" loopText).result = .ok loopRegistry := by cbv
  have hmodels : (models? loopRegistry none).isSome := by cbv
  obtain ⟨c', w', hbuild⟩ := exists_exec_build hmodels (.empty [])
  have hholds : loopRegistry.HoldsByValue ⟨"N", "U", []⟩ (nameOf "U") := by
    refine ⟨_, ⟨"a", .stored (.named "U"), some 1⟩, .named "U", .ofBase (.named (nameOf "U")), rfl,
      by simp [entry], rfl, ?_, rfl, rfl, rfl⟩
    cbv
  exact hall "m" loopText loopRegistry _ c' _ w' htext rfl rfl hbuild (nameOf "U").place
    (.single ⟨⟨rfl, _, rfl, rfl⟩, rfl, [], nameOf "U", hholds, rfl⟩)

end ContainmentSample

end Bindery
