import Bindery.Proofs.Model.Blocks
/-!
# How fields are compared

A callback is compared by its address, and it is the type of the field that tells a callback.  In a
built model it has no pointers, so it is declared as an option, which has an address to compare; but
an array of callbacks is compared in the same way, and is declared as an array
(`Registry.WellFormed.compared_of_mem`).
-/

namespace Bindery

open Code (Comparison Declaration)

/-! ### Types of callbacks -/

namespace FieldType

variable {t : FieldType}

theorem isCallback_iff :
    t.isCallback = true ↔ ∃ n, t.base = .named n ∧ n.category = .delegate ∧ n.winrt = false := by
  cases hbase : t.base with
  | primitive p => simp [isCallback, isDelegate, category?, target?, hbase]
  | generic name => simp [isCallback, isDelegate, category?, target?, hbase]
  | named n =>
    cases hwinrt : n.winrt <;>
      simp [isCallback, isDelegate, isWinrtDelegate, category?, target?, hbase, hwinrt]

theorem fieldCode_of_delegate {n : TypeName} (hbase : t.base = .named n)
    (hcategory : n.category = .delegate) (hpointers : t.pointers = 0) (source : String) :
    (t.array = none → t.fieldCode source = optionOf (n.codePath source)) ∧
    ∀ v, t.array = some v →
      t.fieldCode source = "[" ++ optionOf (n.codePath source) ++ "; " ++ v.plain ++ "]" := by
  have hcode : t.baseCode source = optionOf (n.codePath source) := by
    simp [baseCode, hbase, hcategory, Category.isNullable]
  refine ⟨fun harray => ?_, fun v harray => ?_⟩
  · simp [fieldCode, wrap, hpointers, hcode, harray]
  · simp [fieldCode, wrap, hpointers, hcode, harray]

theorem head?_optionOf (path : String) : (optionOf path).toList.head? = some ':' := by
  unfold optionOf
  simp only [String.toList_append, List.append_assoc]
  simp

/-- An array is told from an option by its first letter. -/
theorem bracket_ne_optionOf (rest path : String) : "[" ++ rest ≠ optionOf path := by
  intro h
  have hletter : ("[" ++ rest).toList.head? = some '[' := by simp
  rw [h, head?_optionOf] at hletter
  exact absurd hletter (by decide)

end FieldType

open FieldType (optionOf)

/-- What a comparison has to do with the type emitted for the field, in a module of the namespace
`source`. -/
structure Compared (source : String) (t : FieldType) (c : Comparison) : Prop where
  /-- Callbacks are compared by address, and nothing else is. -/
  callback : c.byAddress = true ↔
    ∃ n, t.base = .named n ∧ n.category = .delegate ∧ n.winrt = false
  /-- The address is taken of an option, unless the field is an array. -/
  option : c.byAddress = true → t.array = none →
    ∃ n, t.base = .named n ∧ t.fieldCode source = optionOf (n.codePath source)
  /-- Of an array it is taken as well, though the type is no option. -/
  array : c.byAddress = true → ∀ v, t.array = some v →
    (∃ n, t.base = .named n ∧
      t.fieldCode source = "[" ++ optionOf (n.codePath source) ++ "; " ++ v.plain ++ "]") ∧
    ∀ path, t.fieldCode source ≠ optionOf path

theorem compared_of_pointers {t : FieldType} (h : t.isDelegate = true → t.pointers = 0)
    (source accessor : String) : Compared source t ⟨accessor, t.isCallback⟩ := by
  have hdelegate {n : TypeName} (hbase : t.base = .named n) (hcategory : n.category = .delegate) :=
    FieldType.fieldCode_of_delegate hbase hcategory (h (by
      simp [FieldType.isDelegate, FieldType.category?, FieldType.target?, hbase, hcategory])) source
  refine ⟨FieldType.isCallback_iff, fun hcallback harray => ?_, fun hcallback v harray => ?_⟩
  · obtain ⟨n, hbase, hcategory, -⟩ := FieldType.isCallback_iff.1 hcallback
    exact ⟨n, hbase, (hdelegate hbase hcategory).1 harray⟩
  · obtain ⟨n, hbase, hcategory, -⟩ := FieldType.isCallback_iff.1 hcallback
    have hcode := (hdelegate hbase hcategory).2 v harray
    refine ⟨⟨n, hbase, hcode⟩, fun path => ?_⟩
    rw [hcode]
    simp only [String.append_assoc]
    exact FieldType.bracket_ne_optionOf _ path

/-! ### Declared comparisons -/

namespace Model

variable {reg : Registry} {m : Model} {own : List Declaration}

/-- Comparisons are declared together with the struct, one for each field. -/
theorem of_mem_ownDeclarations_partialEqImpl (h : m.ownDeclarations reg = .ok own) {head : Code.Head}
    {cs : List Comparison} (hmem : .partialEqImpl head cs ∈ own) :
    head = m.head ∧ cs = m.comparisons ∧ m.structDeclaration ∈ own := by
  have hfull : m.shape = .full := by
    by_contra hshape
    have hkind := (of_mem_ownDeclarations hshape h hmem).1
    simp [Declaration.kind] at hkind
  obtain ⟨copy, hkinds, -⟩ := kinds_ownDeclarations h
  have hnodup : (own.map (·.kind)).Nodup := hkinds ▸ Shape.nodup_ownKinds ..
  obtain ⟨abi, constants, defaults, copy, -, -, -, -, rfl⟩ := ownDeclarations_full hfull h
  have heq : Declaration.partialEqImpl head cs = .partialEqImpl m.head m.comparisons :=
    List.inj_on_of_nodup_map hnodup hmem (by simp) rfl
  cases heq
  exact ⟨rfl, rfl, by simp⟩

end Model

namespace Registry

variable {reg : Registry} {name : TypeName} {m : Model}

theorem BuiltFrom.pointers_of_delegate {d : Definition} {children : List Model} {stored : FieldList}
    (h : reg.BuiltFrom name d children stored m) {f : String × FieldType} (hf : f ∈ m.fields)
    (hdelegate : f.2.isDelegate = true) : f.2.pointers = 0 := by
  rcases h.of_mem_fields hf with heq | ⟨field, -, type, t, -, -, heq⟩
  · rw [heq]
    rfl
  · rw [heq] at hdelegate ⊢
    exact FieldType.pointers_fixDelegate hdelegate

/-- **Comparisons.**  Wherever comparisons are declared for a built model or one nested in it, there
is one for each field of the struct that is declared with them, in order.  Callbacks are compared by
address, and only they; the type emitted for one is an option unless it is an array. -/
theorem WellFormed.compared_of_mem (hreg : reg.WellFormed) (hbuild : (reg.build name).result = .ok m)
    {ds : List Declaration} (hds : (m.declarations reg).result = .ok ds) {head : Code.Head}
    {cs : List Comparison} (hmem : .partialEqImpl head cs ∈ ds) :
    ∃ n ∈ m.walk, n.head = head ∧ .struct head n.isTypedef n.fieldCodes ∈ ds ∧
      cs.length = n.fields.length ∧ ∀ k x t, n.fields[k]? = some (x, t) →
        n.fieldCodes[k]? = some (x, t.fieldCode n.name.space) ∧
        ∃ c, cs[k]? = some c ∧ c.accessor = n.accessor k x ∧ Compared n.name.space t c := by
  obtain ⟨n, hn, own, ns, hown, hmem, hns, hsubset⟩ :=
    Model.exists_declared_of_mem_declarations hds hmem
  obtain ⟨rfl, rfl, hstruct⟩ := Model.of_mem_ownDeclarations_partialEqImpl hown hmem
  obtain ⟨d, children, stored, hfrom⟩ := hreg.builtFrom (hreg.build_of_mem_walk hbuild hn).1
  refine ⟨n, hn, rfl, hsubset (Model.ownDeclarations_subset hns hown hstruct),
    by simp [Model.comparisons], fun k x t hf => ⟨?_, ?_⟩⟩
  · simp [Model.fieldCodes, hf]
  · refine ⟨⟨n.accessor k x, t.isCallback⟩, by simp [Model.comparisons, hf], rfl, ?_⟩
    exact compared_of_pointers (hfrom.pointers_of_delegate (List.mem_of_getElem? hf)) _ _

end Registry

/-! ### A sample -/

namespace ComparisonSample

open Sample (nameOf)

/-- A struct with a callback, an array of callbacks and a WinRT delegate, of which the first one has
a recorded pointer. -/
def callbackText : String :=
  "namespace N { delegate D; winrt delegate E; struct A { f: *mut D; g: [D; 2]; e: E; } }"

def callbackRegistry : Registry :=
  ⟨[⟨"N", ⟨"D", .delegate, [], [], false, false, [], none, [], some "m", some 1, []⟩⟩,
    ⟨"N", ⟨"E", .delegate, [], [], false, true, [], none, [], some "m", some 1, []⟩⟩,
    ⟨"N", ⟨"A", .struct, [⟨"f", .stored (.pointer false (.named "D")), some 1⟩,
      ⟨"g", .stored (.array (.named "D") (.int 2)), some 1⟩, ⟨"e", .stored (.named "E"), some 1⟩],
      [], false, false, [], none, [], some "m", some 1, []⟩⟩]⟩

def callback : FieldType := .ofBase (.named ⟨⟨"N", "D", []⟩, .delegate, false, "N", "D"⟩)

def callbackModel : Model where
  name := nameOf "A"
  explicitLayout := false
  generics := []
  fields := [("f", callback), ("g", { callback with array := some (.int 2) }),
    ("e", .ofBase (.named ⟨⟨"N", "E", []⟩, .delegate, true, "N", "E"⟩))]
  constants := []
  signature := none
  isTypedef := false
  guid := .absent
  nested := []
  shape := .full

/-- All three comparisons, of which two take addresses. -/
def callbackComparisons : List Comparison := [⟨"f", true⟩, ⟨"g", true⟩, ⟨"e", false⟩]

/-- The callback is declared as an option, and the array is not, though it is compared in the same
way. -/
theorem compared_callbacks :
    (Registry.ofText "m" callbackText).result = .ok callbackRegistry ∧
    ∃ ds, (callbackModel.declarations callbackRegistry).result = .ok ds ∧
      .partialEqImpl callbackModel.head callbackComparisons ∈ ds ∧
      .struct callbackModel.head false [("f", "::std::option::Option<D>"),
        ("g", "[::std::option::Option<D>; 2]"), ("e", "::std::option::Option<E>")] ∈ ds ∧
      Compared "N" callback ⟨"f", true⟩ ∧
      Compared "N" { callback with array := some (.int 2) } ⟨"g", true⟩ := by
  have htext : (Registry.ofText "m" callbackText).result = .ok callbackRegistry := by cbv
  have hbuild : (callbackRegistry.build (nameOf "A")).result = .ok callbackModel := by cbv
  obtain ⟨ds, hds⟩ :=
    DerivedSample.exists_declarations callbackRegistry callbackModel (by decide +kernel)
  have hmem : .partialEqImpl callbackModel.head callbackComparisons ∈ ds := by
    have hcode : ((callbackModel.declarations callbackRegistry).result.toOption.map fun ds =>
        decide (.partialEqImpl callbackModel.head callbackComparisons ∈ ds)) = some true := by
      decide +kernel
    simpa [hds, Except.toOption] using hcode
  obtain ⟨n, hn, -, hstruct, -, hfields⟩ :=
    (Registry.wellFormed_of_ofText htext).compared_of_mem hbuild hds hmem
  obtain rfl : n = callbackModel := by
    simpa [Model.walk, Model.walkAll, callbackModel] using hn
  obtain ⟨-, _, hf, -, hcompared⟩ := hfields 0 "f" callback rfl
  obtain ⟨-, _, hg, -, hcomparedArray⟩ := hfields 1 "g" { callback with array := some (.int 2) } rfl
  obtain rfl := Option.some.inj hf
  obtain rfl := Option.some.inj hg
  have hcodes : callbackModel.fieldCodes = [("f", "::std::option::Option<D>"),
      ("g", "[::std::option::Option<D>; 2]"), ("e", "::std::option::Option<E>")] := by
    decide +kernel
  rw [hcodes] at hstruct
  exact ⟨htext, ds, hds, hmem, hstruct, hcompared, hcomparedArray⟩

end ComparisonSample

end Bindery
