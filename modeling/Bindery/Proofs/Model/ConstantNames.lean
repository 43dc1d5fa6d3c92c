import Bindery.Proofs.Model.Declarations
import Bindery.Proofs.Model.Fields
/-!
# Names of declared constants

Constants are declared under their names in metadata, escaped where these are reserved words.  Fields
are escaped before their identifiers are made distinct; nothing is done for constants after they have
been escaped.  Their identifiers still differ, unless a word that cannot be raw and the same word with
an underscore are both names of constants (`Registry.constantNames_of_mem`).
-/

namespace Bindery

open Code (Declaration bare identifier neverRaw reservedWords)

/-! ### Names in a definition -/

/-- The names of the literals among the fields, with a value or without. -/
def Definition.literalNames (d : Definition) : List String :=
  d.fields.filterMap fun f =>
    match f.kind with
    | .literal _ => some f.name
    | .stored _ => none

def Definition.constantNames (d : Definition) : List String := d.constants.map (·.1)

namespace Definition

theorem constantNames_sublist (d : Definition) : d.constantNames.Sublist d.literalNames := by
  unfold constantNames constants literalNames
  induction d.fields with
  | nil => exact .slnil
  | cons f fields ih =>
    cases hkind : f.kind with
    | stored type => simpa [hkind] using ih
    | literal constant =>
      cases constant with
      | none => simpa [hkind] using ih.cons f.name
      | some c => simpa [hkind] using ih

theorem exists_field_of_mem_constantNames {d : Definition} {x : String} (h : x ∈ d.constantNames) :
    ∃ f ∈ d.fields, f.name = x := by
  obtain ⟨f, hf, hname⟩ := List.mem_filterMap.1 (d.constantNames_sublist.subset h)
  split at hname
  · exact ⟨f, hf, Option.some.inj hname⟩
  · cases hname

end Definition

/-- No constant has the name that another one gets because it cannot be raw. -/
def Definition.Unshadowed (d : Definition) : Prop :=
  ∀ w ∈ neverRaw, w ∈ d.constantNames → w ++ "_" ∉ d.constantNames

/-! ### Declared names -/

/-- What is true of the names under which the constants of a definition are declared. -/
structure ConstantNames (d : Definition) (declared : List String) : Prop where
  /-- They are the names in metadata, in order, each escaped. -/
  escaped : declared = d.constantNames.map identifier
  free : ∀ x ∈ declared, x ∉ reservedWords
  /-- Different literals have different constants, unless one takes the name of another one. -/
  distinct : d.literalNames.Nodup → (declared.Nodup ↔ d.Unshadowed)
  /-- The same is true of the words for which the names stand. -/
  distinctWords : d.literalNames.Nodup → ((declared.map bare).Nodup ↔ d.Unshadowed)

theorem Definition.Declared.constantNames {d : Definition} (h : d.Declared) :
    ConstantNames d (d.constantNames.map identifier) := by
  have hmark : ∀ x ∈ d.constantNames, '#' ∉ x.toList := by
    intro x hx hmark
    obtain ⟨f, hf, rfl⟩ := exists_field_of_mem_constantNames hx
    exact absurd ((h.fields f hf).word _ hmark) (by decide)
  have hwords (hliterals : d.literalNames.Nodup) :
      ((d.constantNames.map identifier).map bare).Nodup ↔ d.Unshadowed := by
    rw [List.map_map]
    exact Code.nodup_bare_identifiers_iff hmark (d.constantNames_sublist.nodup hliterals)
  refine ⟨rfl, fun x hx => ?_, fun hliterals => ?_, hwords⟩
  · obtain ⟨name, -, rfl⟩ := List.mem_map.1 hx
    exact Code.identifier_not_mem_reservedWords name
  · rw [Code.nodup_identifiers_iff hmark (d.constantNames_sublist.nodup hliterals),
      ← hwords hliterals, List.map_map]
    rfl

namespace Registry

/-- **Names of constants.**  Wherever constants are declared for a model that is built from a text or
for one nested in it, they are those of its definition, under names that are no reserved words.  If
the literals of the definition have different names, the declared names differ, raw or not, exactly
if no word that cannot be raw is the name of a constant together with the same word and an
underscore. -/
theorem constantNames_of_mem {reg : Registry} {file text : String}
    (hload : (ofText file text).result = .ok reg) {name : TypeName} {m : Model}
    (hbuild : (reg.build name).result = .ok m) {ds : List Declaration}
    (hds : (m.declarations reg).result = .ok ds) {declaration : Declaration}
    (hmem : declaration ∈ ds) (hkind : declaration.kind = .constants) :
    ∃ n ∈ m.walk, ∃ d items, reg.find? n.name.place = some d ∧
      declaration = .constants n.head items ∧ ConstantNames d (items.map (·.1)) := by
  obtain ⟨n, hn, own, -, hown, hmem, -⟩ := Model.exists_declared_of_mem_declarations hds hmem
  obtain ⟨items, hitems, rfl⟩ := Model.exists_items_of_mem_ownDeclarations hown hmem hkind
  have hreg := wellFormed_of_ofText hload
  obtain ⟨d, children, stored, hfrom⟩ := hreg.builtFrom (hreg.build_of_mem_walk hbuild hn).1
  have hnames : items.map (·.1) = d.constantNames.map identifier := by
    rw [Model.map_fst_constantCodes hitems, hfrom.constants_eq, Definition.constantNames,
      List.map_map]
    rfl
  refine ⟨n, hn, d, items, hfrom.found, rfl, ?_⟩
  rw [hnames]
  exact (declared_of_ofText hload hfrom.found).constantNames

end Registry

/-! ### A sample -/

namespace ConstantSample

open Sample (nameOf)

/-- A struct with a constant whose name cannot be raw, one that has the name which this one gets, and
one that can be raw. -/
def constantsText : String :=
  "namespace N { struct A { x: u8; const self: u8 = 1; const self_: u8 = 2; const type: u8 = 3; } }"

def constantsRegistry : Registry :=
  ⟨[⟨"N", ⟨"A", .struct, [⟨"x", .stored (.named "u8"), some 1⟩,
      ⟨"self", .literal (some ⟨.int 1, "u8"⟩), some 1⟩,
      ⟨"self_", .literal (some ⟨.int 2, "u8"⟩), some 1⟩,
      ⟨"type", .literal (some ⟨.int 3, "u8"⟩), some 1⟩],
      [], false, false, [], none, [], some "m", some 1, []⟩⟩]⟩

def constantsModel : Model where
  name := nameOf "A"
  explicitLayout := false
  generics := []
  fields := [("x", .ofPrimitive .u8)]
  constants := [("self", ⟨.int 1, "u8"⟩), ("self_", ⟨.int 2, "u8"⟩), ("type", ⟨.int 3, "u8"⟩)]
  signature := none
  isTypedef := false
  guid := .absent
  nested := []
  shape := .full

/-- The names of the literals differ, and two constants are declared under one name. -/
theorem constantNames_clash :
    ∃ ds d items, (constantsModel.declarations constantsRegistry).result = .ok ds ∧
      constantsRegistry.find? ⟨"N", "A", []⟩ = some d ∧ d.literalNames.Nodup ∧
      .constants constantsModel.head items ∈ ds ∧
      items.map (·.1) = ["self_", "self_", "r#type"] ∧ ConstantNames d (items.map (·.1)) := by
  have hload : (Registry.ofText "m" constantsText).result = .ok constantsRegistry := by cbv
  have hbuild : (constantsRegistry.build (nameOf "A")).result = .ok constantsModel := by cbv
  have hcode : (fun ds : List Declaration => ds.filter (·.kind = .constants)) <$>
      (constantsModel.declarations constantsRegistry).result =
        .ok [.constants constantsModel.head [("self_", "u8 = 1u8"), ("self_", "u8 = 2u8"),
          ("r#type", "u8 = 3u8")]] := by cbv
  obtain ⟨ds, hds, hfilter⟩ := map_eq_ok.1 hcode
  have hmem : .constants constantsModel.head [("self_", "u8 = 1u8"), ("self_", "u8 = 2u8"),
      ("r#type", "u8 = 3u8")] ∈ ds.filter (·.kind = .constants) := by simp [hfilter]
  replace hmem := (List.mem_filter.1 hmem).1
  obtain ⟨n, hn, d, items, hd, heq, hnames⟩ :=
    Registry.constantNames_of_mem hload hbuild hds hmem rfl
  obtain rfl : n = constantsModel := by simpa [Model.walk, Model.walkAll, constantsModel] using hn
  obtain rfl := (Declaration.constants.inj heq).2
  have hliterals : d.literalNames.Nodup := by
    obtain rfl := Option.some.inj hd
    decide
  exact ⟨ds, d, _, hds, hd, hliterals, hmem, rfl, hnames⟩

end ConstantSample

end Bindery
