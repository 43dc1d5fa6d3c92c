import Bindery.Proofs.Model.Declarations
/-!
# Types at call boundaries

A value that can be copied byte by byte crosses a call boundary as it is, and every other value
crosses it in another form.  So the type that stands for a field there is the type of the field if
and only if this is blittable (`exists_abiCode`); that needs the forms to differ as texts, and they
do whatever the names are.  A model without parameters that has blittable fields only goes with a
shadow of the very same types (`abi_of_blittable`).
-/

namespace Bindery

namespace FieldType

variable {reg : Registry} {t : FieldType} {source : String} {b : Bool}

/-! ### Forms that differ -/

theorem wrap_injective (t : FieldType) : Function.Injective t.wrap := by
  intro base base' h
  have hlist := congrArg String.toList h
  unfold wrap at hlist
  cases harray : t.array with
  | none =>
    simp only [harray, String.toList_append, List.append_cancel_left_eq] at hlist
    exact String.toList_injective hlist
  | some n =>
    simp only [harray, String.toList_append, List.append_assoc, List.append_cancel_left_eq] at hlist
    exact String.toList_injective (List.append_cancel_right hlist)

/-- A projection is longer than the type it is taken of. -/
theorem abiOf_ne (path : String) : abiOf path ≠ path := by
  intro h
  have hlength : (abiOf path).toList.length = path.toList.length := by rw [h]
  simp only [abiOf, String.toList_append, List.length_append] at hlength
  simp at hlength
  omega

theorem optionOf_letter (path : String) : (optionOf path).toList[2]? = some 's' := by
  have hletter : "::std::option::Option<".toList[2]? = some 's' := by decide
  have hlength : 2 < "::std::option::Option<".toList.length := by decide
  unfold optionOf
  simp only [String.toList_append, List.append_assoc]
  rwa [List.getElem?_append_left hlength]

/-- An untyped reference is told from a type that may be missing by its third letter. -/
theorem rawPointer_ne_optionOf (path : String) : rawPointer ≠ optionOf path := by
  intro h
  have hletter : rawPointer.toList[2]? = some 'w' := by decide
  rw [h, optionOf_letter] at hletter
  simp at hletter

/-! ### The form of a base type -/

theorem baseAbi_primitive {p : Primitive} (hp : t.base = .primitive p) :
    ∃ base, t.baseAbi reg source = .ok base ∧
      (base = t.baseCode source ↔ t.simpleBlittable = true) := by
  unfold baseAbi simpleBlittable
  by_cases hstring : p = .string
  · subst hstring
    have hne : rawPointer ≠ t.baseCode source := by simp [rawPointer, baseCode, hp]
    exact ⟨rawPointer, by rw [hp], by simp [hp, hne]⟩
  · by_cases hobject : p = .object
    · subst hobject
      have hne : rawPointer ≠ t.baseCode source := by
        simpa [baseCode, hp] using rawPointer_ne_optionOf "::windows::Object"
      exact ⟨rawPointer, by rw [hp], by simp [hp, hne]⟩
    · exact ⟨t.baseCode source, by cases p <;> simp_all, by simp [hp, hstring, hobject]⟩

theorem baseAbi_generic {name : String} (hname : t.base = .generic name) :
    ∃ base, t.baseAbi reg source = .ok base ∧
      (base = t.baseCode source ↔ t.simpleBlittable = true) := by
  have hne : abiOf name ≠ t.baseCode source := by simpa [baseCode, hname] using abiOf_ne name
  exact ⟨abiOf name, by simp [baseAbi, hname], by simp [simpleBlittable, hname, hne]⟩

theorem baseAbi_named {n : TypeName} (hn : t.base = .named n) (hcategory : n.category ≠ .struct) :
    ∃ base, t.baseAbi reg source = .ok base ∧
      (base = t.baseCode source ↔ t.simpleBlittable = true) := by
  have hoption (hnullable : n.category.isNullable = true) : rawPointer ≠ t.baseCode source := by
    simpa [baseCode, hn, hnullable] using rawPointer_ne_optionOf (n.codePath source)
  unfold baseAbi simpleBlittable
  rw [hn]
  dsimp only
  cases hkind : n.category with
  | struct => exact absurd hkind hcategory
  | enum => exact ⟨t.baseCode source, rfl, by simp⟩
  | delegate =>
    have hne := hoption (by simp [hkind, Category.isNullable])
    cases hwinrt : n.winrt with
    | true => exact ⟨rawPointer, rfl, by simp [hne]⟩
    | false => exact ⟨t.baseCode source, rfl, by simp⟩
  | interface | runtimeClass =>
    have hne := hoption (by simp [hkind, Category.isNullable])
    exact ⟨rawPointer, rfl, by simp [hne]⟩

theorem baseAbi_struct {n : TypeName} (hn : t.base = .named n) (hcategory : n.category = .struct)
    (h : reg.isBlittable n.place = .ok b) :
    ∃ base, t.baseAbi reg source = .ok base ∧ (base = t.baseCode source ↔ b = true) := by
  have hcode : t.baseCode source = n.codePath source := by
    simp [baseCode, hn, hcategory, Category.isNullable]
  have hbase : t.baseAbi reg source =
      .ok (if b then n.codePath source else abiOf (n.codePath source)) := by
    simp only [baseAbi, hn, hcategory, h, hcode]
    cases b <;> rfl
  refine ⟨_, hbase, ?_⟩
  rw [hcode]
  cases b with
  | true => simp
  | false => simp [abiOf_ne]

/-- A base type stands for itself if it is blittable, and only then. -/
theorem exists_baseAbi (hpointers : ¬ 0 < t.pointers) (h : t.isBlittable reg = .ok b) :
    ∃ base, t.baseAbi reg source = .ok base ∧ (base = t.baseCode source ↔ b = true) := by
  rw [isBlittable, if_neg hpointers] at h
  cases hbase : t.base with
  | primitive p =>
    rw [hbase] at h
    obtain rfl := Except.ok.inj h
    exact baseAbi_primitive hbase
  | generic name =>
    rw [hbase] at h
    obtain rfl := Except.ok.inj h
    exact baseAbi_generic hbase
  | named n =>
    rw [hbase] at h
    dsimp only at h
    by_cases hcategory : n.category = .struct
    · rw [if_pos hcategory] at h
      exact baseAbi_struct hbase hcategory h
    · rw [if_neg hcategory] at h
      obtain rfl := Except.ok.inj h
      exact baseAbi_named hbase hcategory

/-- **The form at call boundaries.**  It is found for every type of which it is known whether it is
blittable, and it is the type of the field if and only if it is. -/
theorem exists_abiCode (h : t.isBlittable reg = .ok b) (source : String) :
    ∃ code, t.abiCode reg source = .ok code ∧ (code = t.fieldCode source ↔ b = true) := by
  by_cases hpointers : 0 < t.pointers
  · rw [isBlittable, if_pos hpointers] at h
    obtain rfl := Except.ok.inj h
    exact ⟨t.fieldCode source, if_pos hpointers, by simp⟩
  · obtain ⟨base, hbase, hiff⟩ : ∃ base, t.baseAbi reg source = .ok base ∧
        (base = t.baseCode source ↔ b = true) := exists_baseAbi hpointers h
    refine ⟨t.wrap base, ?_, ?_⟩
    · rw [abiCode, if_neg hpointers, hbase]
      rfl
    · rw [fieldCode, (wrap_injective t).eq_iff, hiff]

theorem abiCode_of_blittable (h : t.isBlittable reg = .ok true) (source : String) :
    t.abiCode reg source = .ok (t.fieldCode source) := by
  obtain ⟨code, hcode, hiff⟩ := exists_abiCode h source
  rw [hcode, hiff.2 rfl]

end FieldType

/-! ### The shadow of a model -/

namespace Model

variable {reg : Registry} {m : Model}

theorem abiEntries_of_blittable (hgenerics : m.generics = [])
    (h : m.allBlittable reg = .ok true) : m.abiEntries reg = .ok (m.fieldCodes.map (·.2)) := by
  have hfields := allM_eq_ok_true.1 h
  have hcodes : m.fields.mapM (fun f => f.2.abiCode reg m.name.space) =
      .ok (m.fields.map fun f => f.2.fieldCode m.name.space) := by
    rw [mapM_eq_ok, List.forall₂_map_right_iff, List.forall₂_same]
    exact fun f hf => FieldType.abiCode_of_blittable (hfields f hf) _
  unfold abiEntries
  rw [hcodes, hgenerics]
  simp [fieldCodes, bind, Except.bind, pure, Except.pure]

/-- **Forms at call boundaries.**  Whenever it is known whether a type is blittable, it has a form at
call boundaries, which is the type of the field if and only if it is blittable.  So the shadow of a
model without parameters, all whose fields are blittable, consists of the types of these fields. -/
theorem abi_of_blittable (reg : Registry) :
    (∀ (t : FieldType) (source : String) (b : Bool), t.isBlittable reg = .ok b →
      ∃ code, t.abiCode reg source = .ok code ∧ (code = t.fieldCode source ↔ b = true)) ∧
    ∀ m : Model, m.generics = [] → m.allBlittable reg = .ok true →
      m.abiEntries reg = .ok (m.fieldCodes.map (·.2)) ∧
      ∀ own, m.shape = .full → m.ownDeclarations reg = .ok own →
        ∃ rest, own = .struct m.head m.isTypedef m.fieldCodes ::
            .abiStruct m.head (m.fieldCodes.map (·.2)) :: rest ∧
          ∀ d ∈ rest, d.kind ≠ .struct ∧ d.kind ≠ .abiStruct := by
  refine ⟨fun t source b h => FieldType.exists_abiCode h source, fun m hgenerics h => ?_⟩
  have hentries := abiEntries_of_blittable hgenerics h
  refine ⟨hentries, fun own hfull hown => ?_⟩
  obtain ⟨abi, constants, defaults, copy, habi, hconstants, -, -, rfl⟩ := ownDeclarations_full hfull hown
  obtain rfl : abi = m.fieldCodes.map (·.2) := Except.ok.inj (habi.symm.trans hentries)
  refine ⟨_, rfl, fun d hd => ?_⟩
  simp only [List.append_eq, List.nil_append, List.mem_append, List.mem_cons, List.not_mem_nil,
    or_false, List.mem_map] at hd
  rcases hd with ((hd | hd) | hd) | ⟨s, -, rfl⟩
  · rw [(constantsDeclaration_ok hconstants hd).1]
    decide
  · rcases hd with rfl | rfl | rfl | rfl | rfl <;> exact ⟨nofun, nofun⟩
  · split at hd
    · rw [List.mem_singleton.1 hd]
      exact ⟨nofun, nofun⟩
    · cases hd
  · exact ⟨nofun, nofun⟩

end Model

/-! ### A sample -/

namespace BoundarySample

open Sample (entry nameOf)

/-- A struct with an identity and a pointer to the next one. -/
def chainText : String := "namespace N { struct A { id: guid; next: *mut A; } }"

def chainRegistry : Registry :=
  ⟨[entry "A" false [("id", .named "guid"), ("next", .pointer false (.named "A"))]]⟩

def chainModel : Model where
  name := nameOf "A"
  explicitLayout := false
  generics := []
  fields := [("id", .ofPrimitive .guid),
    ("next", (FieldType.ofBase (.named (nameOf "A"))).withPointers 1)]
  constants := []
  signature := none
  isTypedef := false
  guid := .absent
  nested := []
  shape := .full

/-- The shadow of the struct has its types, while a text crosses call boundaries as another type. -/
theorem abi_chain :
    (Registry.ofText "m" chainText).result = .ok chainRegistry ∧
    (chainRegistry.build (nameOf "A")).result = .ok chainModel ∧
    chainModel.abiEntries chainRegistry = .ok ["::windows::Guid", "*mut A"] ∧
    ∃ code, (FieldType.ofPrimitive .string).abiCode chainRegistry "N" = .ok code ∧
      code ≠ "::windows::HString" := by
  have htext : (Registry.ofText "m" chainText).result = .ok chainRegistry := by cbv
  have hbuild : (chainRegistry.build (nameOf "A")).result = .ok chainModel := by cbv
  have hblittable : chainModel.allBlittable chainRegistry = .ok true := by cbv
  obtain ⟨htypes, hmodels⟩ := Model.abi_of_blittable chainRegistry
  obtain ⟨hentries, -⟩ := hmodels chainModel rfl hblittable
  have hcodes : chainModel.fieldCodes.map (·.2) = ["::windows::Guid", "*mut A"] := by cbv
  rw [hcodes] at hentries
  obtain ⟨code, hcode, hiff⟩ := htypes (.ofPrimitive .string) "N" false rfl
  have hfield : (FieldType.ofPrimitive .string).fieldCode "N" = "::windows::HString" := by cbv
  refine ⟨htext, hbuild, hentries, code, hcode, fun heq => ?_⟩
  have himpossible := hiff.1 (heq.trans hfield.symm)
  cases himpossible

end BoundarySample

end Bindery
