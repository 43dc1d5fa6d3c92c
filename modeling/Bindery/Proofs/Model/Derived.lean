import Bindery.Proofs.FieldType.Separate
import Bindery.Proofs.Model.Declarations
/-!
# Derived operations of what a model holds

The operations derived for a full model use those of its fields.  For a field that holds a full
model they are there, and it can be copied where the holder can (`declares_of_holds`); a full model
can however hold a union, which has none of them (`holds_union`).
-/

namespace Bindery

open Code (Declares derivedKinds)

theorem FieldType.isBlittable_of_struct {reg : Registry} {t : FieldType} {n : TypeName}
    (hn : t.base = .named n) (hcategory : n.category = .struct) (hpointers : ¬ 0 < t.pointers) :
    t.isBlittable reg = reg.isBlittable n.place := by
  rw [isBlittable, if_neg hpointers, hn]
  dsimp only
  rw [if_pos hcategory]

namespace Model

theorem allBlittable_iff {reg : Registry} {m : Model} :
    m.allBlittable reg = .ok true ↔ ∀ f ∈ m.fields, f.2.isBlittable reg = .ok true :=
  allM_eq_ok_true

theorem hasNestedUnion_eq (m : Model) : m.hasNestedUnion = anyUnion m.nested := by
  obtain ⟨_, _, _, _, _, _, _, _, nested, _⟩ := m
  rw [hasNestedUnion]

theorem anyUnion_eq_false {ms : List Model} :
    anyUnion ms = false ↔ ∀ c ∈ ms, c.explicitLayout = false ∧ anyUnion c.nested = false := by
  induction ms with
  | nil => simp [anyUnion]
  | cons c ms ih =>
    rw [anyUnion, hasNestedUnion_eq, Bool.or_eq_false_iff, Bool.or_eq_false_iff, ih,
      List.forall_mem_cons]

end Model

/-- A full model has no identity, is no union and has none inside. -/
theorem Shape.of_eq_full {guid : Guid} {explicitLayout : Bool} {nested : List Model} :
    Shape.of guid explicitLayout nested = .full ↔
      guid.isAbsent = true ∧ explicitLayout = false ∧ Model.anyUnion nested = false := by
  unfold Shape.of
  split_ifs <;> simp_all

namespace Registry

variable {reg : Registry} {name n : TypeName} {m : Model}

theorem BuiltFrom.allBlittable_eq {d : Definition} {children : List Model} {stored : FieldList}
    (hm : reg.BuiltFrom name d children stored m)
    (hspace : name.space = "" ∨ name.space = name.place.space) :
    m.allBlittable reg = d.stored.allM (reg.testField name.place reg.isBlittable) := by
  have htypes : m.allBlittable reg = (m.fields.map (·.2)).allM fun t => t.isBlittable reg := by
    rw [allM_map]
    rfl
  have hpasses : ((m.fields.map (·.2)).allM fun t => t.isBlittable reg) =
      stored.allM fun entry => entry.2.fixDelegate.isBlittable reg := by
    rw [hm.fields_eq, FieldList.map_snd_run]
    split
    · rename_i hempty
      have hnone : stored = [] := by simp_all
      rw [hnone]
      rfl
    · rw [allM_map]
  rw [htypes, hpasses]
  refine (allM_eq_of_forall₂ (hm.resolved.imp fun f entry hf => ?_)).symm
  have hown : reg.resolveStored (.of name.place [] none) f.1 f.2 = .ok entry.2.own := by
    have hplain := resolveStored_own (hm.faithful hspace) f.1 f.2
    rw [hf.2] at hplain
    exact hplain
  rw [testField, hown]
  show entry.2.own.fixDelegate.blittableWith reg.isBlittable = _
  rw [FieldType.fixDelegate_own, FieldType.blittableWith_own, FieldType.isBlittable_eq]

/-- The model of a definition in its own namespace is found blittable or not as the definition is. -/
theorem WellFormed.allBlittable_eq_ok_iff (hreg : reg.WellFormed)
    (hbuild : (reg.build name).result = .ok m)
    (hspace : name.space = "" ∨ name.space = name.place.space) {b : Bool} :
    m.allBlittable reg = .ok b ↔ reg.isBlittable name.place = .ok b := by
  obtain ⟨d, children, stored, hm⟩ := hreg.builtFrom hbuild
  rw [hreg.isBlittable_eq_ok_iff hm.found hm.isStruct, hm.allBlittable_eq hspace]

theorem WellFormed.shape_of_mem_nested (hreg : reg.WellFormed)
    (hbuild : (reg.build name).result = .ok m) (hfull : m.shape = .full) {c : Model}
    (hc : c ∈ m.nested) : c.shape = .full ∨ c.shape = .constantOnly := by
  obtain ⟨d, children, stored, hm⟩ := hreg.builtFrom hbuild
  obtain ⟨inner, -, k, hcbuild⟩ := hm.of_mem_nested hc
  obtain ⟨_, _, _, hcm⟩ := hreg.builtFrom hcbuild
  rw [hm.shape_eq, Shape.of_eq_full] at hfull
  obtain ⟨hlayout, hinside⟩ := Model.anyUnion_eq_false.1 hfull.2.2 c hc
  rw [hcm.shape_eq, Shape.of, hlayout, hinside]
  cases c.guid.isAbsent with
  | true => exact .inl rfl
  | false => exact .inr rfl

/-- **Derived operations and containment.**  Let a full model, in the walk of one that is built from
a loaded text, have a field of a struct or union by value.  The model of that one has derived
operations if it is full, and only then.  If it is full, and at the top level or in its own
namespace, it can be copied wherever the holder can.  Inside the holder there are only full models
and mere identities, which can be declared if it can. -/
theorem declares_of_holds {file text : String} {root m : Model} {f : String × FieldType}
    (htext : (ofText file text).result = .ok reg) (hroot : (reg.build name).result = .ok root)
    (hm : m ∈ root.walk) (hfull : m.shape = .full) (hf : f ∈ m.fields)
    (hn : f.2.base = .named n) (hstruct : n.category = .struct) (hpointers : f.2.pointers = 0) :
    (n.place.isNested = true → ∃ e ∈ m.nested, (reg.build n).result = .ok e ∧
      (e.shape = .full ∨ e.shape = .constantOnly) ∧
      ∀ ms, (m.declarations reg).result = .ok ms → ∃ es, (e.declarations reg).result = .ok es) ∧
    ∀ e es, (reg.build n).result = .ok e → (e.declarations reg).result = .ok es →
      ((∀ kind ∈ derivedKinds, Declares es kind e.name.name) ↔ e.shape = .full) ∧
      (e.shape = .full →
        (n.place.isNested = true → n.space = "" ∨ n.space = n.place.space) →
        ∀ ms, (m.declarations reg).result = .ok ms → Declares ms .copyImpl m.name.name →
          Declares es .copyImpl e.name.name) := by
  have hreg : reg.WellFormed := wellFormed_of_ofText htext
  obtain ⟨hbuild, -, -⟩ := hreg.build_of_mem_walk hroot hm
  refine ⟨fun hnested => ?_, fun e es he hes => ⟨⟨fun h => ?_, fun h kind hkind => ?_⟩, ?_⟩⟩
  · obtain ⟨e, hemem, he⟩ := hreg.exists_nested_of_field hbuild hf hn hnested
    refine ⟨e, hemem, he, hreg.shape_of_mem_nested hbuild hfull hemem, fun ms hms => ?_⟩
    exact Model.exists_declarations_of_mem_nested hms (by simp [hfull]) hemem
  · exact (hreg.declares_derived he hes (by simp [derivedKinds])).1 (h .eqImpl (by simp [derivedKinds]))
  · exact (hreg.declares_derived he hes hkind).2 h
  · intro hefull hinside ms hms hcopy
    have hspace : n.space = "" ∨ n.space = n.place.space := by
      cases hnested : n.place.isNested with
      | true => exact hinside hnested
      | false =>
        obtain ⟨_, _, _, hfrom⟩ := hreg.builtFrom hbuild
        exact .inr (hfrom.has_of_mem_fields hf hn hnested).space_eq
    obtain ⟨-, hall⟩ := (hreg.declares_copy hbuild hms).1 hcopy
    have hfield := Model.allBlittable_iff.1 hall f hf
    rw [FieldType.isBlittable_of_struct hn hstruct (by omega)] at hfield
    exact (hreg.declares_copy he hes).2 ⟨hefull, (hreg.allBlittable_eq_ok_iff he hspace).2 hfield⟩

end Registry

/-! ### Samples -/

namespace DerivedSample

open Sample (entry nameOf)

/-- The model of a struct or union under its own name, with fields by value. -/
def simple (name : String) (shape : Shape) (fields : FieldList) : Model where
  name := nameOf name
  explicitLayout := shape = .union
  generics := []
  fields := fields
  constants := []
  signature := none
  isTypedef := false
  guid := .absent
  nested := []
  shape := shape

theorem exists_declarations (reg : Registry) (m : Model)
    (h : (m.declarations reg).result.toOption.isSome) :
    ∃ ds, (m.declarations reg).result = .ok ds := by
  cases hds : (m.declarations reg).result with
  | ok ds => exact ⟨ds, rfl⟩
  | error e => simp [hds, Except.toOption] at h

/-- A struct with an array of structs. -/
def arrayText : String := "namespace N { struct A { b: [B; 2]; } struct B { x: u8; } }"

def arrayRegistry : Registry :=
  ⟨[entry "A" false [("b", .array (.named "B") (.int 2))], entry "B" false [("x", .named "u8")]]⟩

def arrayHolder : Model :=
  simple "A" .full [("b", ⟨.named (nameOf "B"), 0, some (.int 2), false, none⟩)]

def arrayElement : Model := simple "B" .full [("x", .ofPrimitive .u8)]

/-- The elements can be copied, as the whole can. -/
theorem declares_copy_arrayElement :
    ∃ ds, (arrayElement.declarations arrayRegistry).result = .ok ds ∧ Declares ds .copyImpl "B" := by
  have htext : (Registry.ofText "m" arrayText).result = .ok arrayRegistry := by cbv
  have hholder : (arrayRegistry.build (nameOf "A")).result = .ok arrayHolder := by cbv
  have helement : (arrayRegistry.build (nameOf "B")).result = .ok arrayElement := by cbv
  obtain ⟨ms, hms⟩ := exists_declarations arrayRegistry arrayHolder (by cbv)
  obtain ⟨es, hes⟩ := exists_declarations arrayRegistry arrayElement (by cbv)
  have hcopy : Declares ms .copyImpl "A" :=
    ((Registry.wellFormed_of_ofText htext).declares_copy hholder hms).2 ⟨rfl, by cbv⟩
  refine ⟨es, hes, ?_⟩
  exact ((Registry.declares_of_holds htext hholder (Model.self_mem_walk _) rfl
    (List.mem_singleton_self _) rfl rfl rfl).2 _ _ helement hes).2 rfl (fun _ => .inr rfl) ms hms
    hcopy

/-- A struct with a union. -/
def unionText : String := "namespace N { union U { x: u8; } struct A { u: U; } }"

def unionRegistry : Registry :=
  ⟨[entry "U" true [("x", .named "u8")], entry "A" false [("u", .named "U")]]⟩

def unionHolder : Model := simple "A" .full [("u", .ofBase (.named (nameOf "U")))]

def held : Model := simple "U" .union [("x", .ofPrimitive .u8)]

/-- **Full models can hold unions.**  What is derived for the struct uses operations that the union
does not have. -/
theorem holds_union :
    ¬ ∀ (file text : String) (reg : Registry) (name n : TypeName) (root m : Model)
      (f : String × FieldType),
      (Registry.ofText file text).result = .ok reg → (reg.build name).result = .ok root →
      m ∈ root.walk → m.shape = .full → f ∈ m.fields → f.2.base = .named n →
      n.category = .struct → f.2.pointers = 0 →
      ∃ e es, (reg.build n).result = .ok e ∧ (e.declarations reg).result = .ok es ∧
        (∀ kind ∈ derivedKinds, Declares es kind e.name.name) ∧
        ∀ ms, (m.declarations reg).result = .ok ms → Declares ms .copyImpl m.name.name →
          Declares es .copyImpl e.name.name := by
  intro hall
  have htext : (Registry.ofText "m" unionText).result = .ok unionRegistry := by cbv
  have hholder : (unionRegistry.build (nameOf "A")).result = .ok unionHolder := by cbv
  have hheld : (unionRegistry.build (nameOf "U")).result = .ok held := by cbv
  obtain ⟨e, es, he, hes, hderived, -⟩ := hall "m" unionText unionRegistry (nameOf "A") (nameOf "U")
    unionHolder unionHolder _ htext hholder (Model.self_mem_walk _) rfl (List.mem_singleton_self _)
    rfl rfl rfl
  obtain rfl : e = held := Except.ok.inj (he.symm.trans hheld)
  have hshape := ((Registry.wellFormed_of_ofText htext).declares_derived he hes (by decide)).1
    (hderived .eqImpl (by decide))
  cases hshape

end DerivedSample

end Bindery
