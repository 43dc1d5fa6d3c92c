import Bindery.Proofs.Code.Identifier
import Bindery.Proofs.Metadata.Declared
import Bindery.Proofs.Model.Naming
/-!
# The fields of built models

A name that was used before gets a number that makes it a new one (`leastSuffix_not_mem`), and with
the number it can still stand as an identifier.  The other passes keep the names, and all of them keep
the order, so the fields of a built model are those declared, each with the type that is found for it
(`Registry.fieldsOf_walk`).
-/

namespace Bindery

/-! ### Names with numbers -/

namespace Code

theorem numbered_not_reserved (base : String) (k : Nat) : base ++ toString k ∉ reservedWords := by
  have hletters : ∀ w ∈ reservedWords, w.toList.getLast?.any Char.isDigit = false := by decide
  intro h
  obtain ⟨c, hc, hdigit⟩ := exists_getLast?_toDigits base.toList k
  have hword := hletters _ h
  rw [toList_numbered, hc, Option.any_some, hdigit] at hword
  cases hword

theorem not_mem_numbered {base : String} (h : '#' ∉ base.toList) (k : Nat) :
    '#' ∉ (base ++ toString k).toList := by
  have hdigits : '#' ∉ Nat.toDigits 10 k := fun hmem =>
    absurd (isDigit_of_mem_toDigits hmem) (by decide)
  rw [toList_numbered, List.mem_append]
  exact fun hmem => hmem.elim h hdigits

theorem bare_numbered {base : String} (h : bare base = base) (k : Nat) :
    bare (base ++ toString k) = base ++ toString k := by
  rw [bare_eq_self_iff] at h ⊢
  rw [toList_numbered]
  intro hmark
  by_cases hlong : 2 ≤ base.toList.length
  · exact h (List.prefix_of_prefix_length_le hmark (List.prefix_append _ _) hlong)
  · -- a word of one letter at most leaves the hash to the digits
    obtain ⟨rest, heq⟩ := hmark
    have hdigits : Nat.toDigits 10 k = ("r#".toList ++ rest).drop base.toList.length := by
      rw [heq, List.drop_left]
    have hhash : '#' ∈ Nat.toDigits 10 k := by
      rw [hdigits]
      obtain hlength | hlength : base.toList.length = 0 ∨ base.toList.length = 1 := by omega
      · simp [hlength]
      · simp [hlength]
    exact absurd (isDigit_of_mem_toDigits hhash) (by decide)

end Code

/-! ### Distinct names -/

namespace FieldList

open Code (IsIdentifier MarkedOnce bare)

variable {taken : List String} {name : String} {fields : FieldList}

/-- Among more numbers than there are names taken, one makes a new name, so the search finds it. -/
theorem find?_leastSuffix (taken : List String) (base : String) :
    ((List.range' 2 (taken.length + 1)).find? fun n => base ++ toString n ∉ taken) =
      some (leastSuffix taken base) := by
  unfold leastSuffix
  cases hfind : (List.range' 2 (taken.length + 1)).find? fun n => base ++ toString n ∉ taken with
  | some n => rfl
  | none =>
    have hall : (List.range' 2 (taken.length + 1)).map (fun n => base ++ toString n) ⊆ taken := by
      intro x hx
      obtain ⟨n, hn, rfl⟩ := List.mem_map.1 hx
      simpa using List.find?_eq_none.1 hfind n hn
    have hnodup := (List.nodup_range' (s := 2) (n := taken.length + 1)).map
      (numbered_injective base)
    have hle := (hnodup.subperm hall).length_le
    rw [List.length_map, List.length_range'] at hle
    omega

theorem leastSuffix_not_mem (taken : List String) (base : String) :
    base ++ toString (leastSuffix taken base) ∉ taken := by
  simpa using List.find?_some (find?_leastSuffix taken base)

/-- How the name of a field comes from the identifier that was made of its declared name. -/
def IsNamed (name entry : String) : Prop := entry = name ∨ ∃ k : Nat, entry = bare name ++ toString k

theorem isNamed_freshName (taken : List String) (name : String) :
    IsNamed name (freshName taken name) := by
  unfold freshName
  dsimp only
  split
  · exact .inr ⟨_, rfl⟩
  · exact .inl rfl

theorem isIdentifier_of_isNamed {entry : String} (h : IsIdentifier name) (hnamed : IsNamed name entry) :
    IsIdentifier entry := by
  rcases hnamed with rfl | ⟨k, rfl⟩
  · exact h
  · exact .inr ⟨Code.numbered_not_reserved _ k, Code.not_mem_numbered h.not_mem_bare k⟩

theorem bare_freshName_not_mem (h : MarkedOnce name) : bare (freshName taken name) ∉ taken := by
  unfold freshName
  dsimp only
  split
  · rw [Code.bare_numbered h.bare_bare]
    exact leastSuffix_not_mem taken _
  · assumption

/-- Fields behind the names taken get names for words that differ from these and from each other. -/
theorem distinct_uniqueAfter (h : ∀ f ∈ fields, MarkedOnce f.1) :
    (∀ f ∈ uniqueAfter taken fields, bare f.1 ∉ taken) ∧
    ((uniqueAfter taken fields).map fun f => bare f.1).Nodup := by
  induction fields generalizing taken with
  | nil => exact ⟨List.forall_mem_nil _, List.nodup_nil⟩
  | cons f fields ih =>
    obtain ⟨hf, hfields⟩ := List.forall_mem_cons.1 h
    obtain ⟨hrest, hnodup⟩ := @ih (taken ++ [bare (freshName taken f.1)]) hfields
    simp only [List.mem_append, List.mem_singleton, not_or] at hrest
    simp only [uniqueAfter, List.map_cons, List.nodup_cons, List.forall_mem_cons]
    refine ⟨⟨bare_freshName_not_mem hf, fun g hg => (hrest g hg).1⟩, fun hmem => ?_, hnodup⟩
    obtain ⟨g, hg, heq⟩ := List.mem_map.1 hmem
    exact (hrest g hg).2 heq

theorem forall₂_uniqueAfter (taken : List String) (fields : FieldList) :
    List.Forall₂ (fun f entry => IsNamed f.1 entry.1 ∧ entry.2 = f.2) fields
      (uniqueAfter taken fields) := by
  induction fields generalizing taken with
  | nil => exact .nil
  | cons f fields ih => exact .cons ⟨isNamed_freshName taken f.1, rfl⟩ (ih _)

theorem isIdentifier_of_mem_uniqueAfter (h : ∀ f ∈ fields, IsIdentifier f.1) :
    ∀ f ∈ uniqueAfter taken fields, IsIdentifier f.1 := by
  intro entry hentry
  obtain ⟨f, hf, hnamed, -⟩ := exists_of_mem_right (forall₂_uniqueAfter taken fields) hentry
  exact isIdentifier_of_isNamed (h f hf) hnamed

/-! ### All passes -/

theorem run_standardPasses (guid : Guid) (fields : FieldList) :
    run (standardPasses guid) fields =
      if fields = [] then if guid.isAbsent then [(reservedName, .ofPrimitive .u8)] else []
      else (unique fields).map fun f => (f.1, f.2.fixDelegate) := by
  cases fields with
  | nil =>
    by_cases hguid : guid.isAbsent = true
    · simp [run, standardPasses, Pass.apply, unique, uniqueAfter, fixDelegates, pad, hguid]
    · simp [run, standardPasses, Pass.apply, unique, uniqueAfter, fixDelegates, pad, hguid]
  | cons f fields => rfl

end FieldList

/-! ### Scopes with the same names -/

theorem lookup_eq_some_iff {α β : Type} [DecidableEq α] {l : List (α × β)}
    (h : (l.map (·.1)).Nodup) {a : α} {b : β} : l.lookup a = some b ↔ (a, b) ∈ l := by
  induction l with
  | nil => simp
  | cons e l ih =>
    obtain ⟨a', b'⟩ := e
    rw [List.map_cons, List.nodup_cons] at h
    rw [List.lookup_cons, List.mem_cons, Prod.mk.injEq]
    by_cases ha : a = a'
    · subst ha
      have hnot : (a, b) ∉ l := fun hmem => h.1 (List.mem_map.2 ⟨(a, b), hmem, rfl⟩)
      simp [hnot, eq_comm]
    · simp [beq_false_of_ne ha, ha, ih h.2]

theorem lookup_eq_of_perm {α β : Type} [DecidableEq α] {l l' : List (α × β)} (hperm : l.Perm l')
    (h : (l.map (·.1)).Nodup) (a : α) : l.lookup a = l'.lookup a := by
  have h' : (l'.map (·.1)).Nodup := (hperm.map _).nodup_iff.1 h
  refine Option.ext fun b => ?_
  rw [lookup_eq_some_iff h, lookup_eq_some_iff h', hperm.mem_iff]

namespace Registry

variable {reg : Registry}

section scope

variable {owner : Place} {space : String} {names names' : List (String × TypeName)}

theorem resolveExpr_congr (h : ∀ x, names.lookup x = names'.lookup x) (use : TypeUse)
    (type : TypeExpr) :
    reg.resolveExpr ⟨owner, names, space⟩ use type =
      reg.resolveExpr ⟨owner, names', space⟩ use type := by
  induction type with
  | named name => simp only [resolveExpr, resolveName, h]
  | pointer isConst element ih => rw [resolveExpr, resolveExpr, ih]
  | array element length ih => rw [resolveExpr, resolveExpr, ih]

theorem resolveStored_congr (h : ∀ x, names.lookup x = names'.lookup x) (f : Field)
    (type : TypeExpr) :
    reg.resolveStored ⟨owner, names, space⟩ f type =
      reg.resolveStored ⟨owner, names', space⟩ f type := by
  unfold resolveStored
  dsimp only
  rw [resolveExpr_congr h]

end scope

/-! ### Resolved types -/

section resolved

variable {scope : Scope} {f : Field} {type : TypeExpr} {t : FieldType}

theorem length_of_resolveExpr {use : TypeUse} (hsized : type.Sized)
    (h : reg.resolveExpr scope use type = .ok t) {v : Value} (hv : t.array = some v) :
    Source.isLength v := by
  cases type with
  | named name =>
    obtain ⟨base, -, rfl⟩ := resolveExpr_named_eq_ok.1 h
    cases hv
  | pointer isConst element =>
    obtain ⟨u, -, hplain, rfl⟩ := resolveExpr_pointer_eq_ok.1 h
    cases hplain.symm.trans hv
  | array element length =>
    obtain ⟨u, -, -, rfl⟩ := resolveExpr_array_eq_ok.1 h
    have hlength := hsized.2
    cases length with
    | int n =>
      cases hv
      exact hlength
    | _ => cases hlength

end resolved

/-! ### The fields of a model -/

/-- What is true of the fields of the model `n` of a definition `d` that a text declares. -/
structure FieldsOf (reg : Registry) (d : Definition) (n : Model) : Prop where
  /-- No two fields stand for the same word, raw or not. -/
  distinct : (n.fieldNames.map Code.bare).Nodup
  identifiers : ∀ x ∈ n.fieldNames, Code.IsIdentifier x
  /-- The fields are those declared, in order; delegates have no pointers. -/
  declared : d.stored ≠ [] → List.Forall₂ (fun f entry =>
    FieldList.IsNamed (Code.memberIdentifier f.1.name) entry.1 ∧
    ∃ t, reg.resolveStored (builtScope n.name n.nested) f.1 f.2 = .ok t ∧
      entry.2 = if t.isDelegate then t.withPointers 0 else t) d.stored n.fields
  /-- If none is declared, one byte makes up for it, unless the model only stands for an identity. -/
  padded : d.stored = [] →
    n.fields = if n.guid.isAbsent then [("reserved", .ofPrimitive .u8)] else []
  noVoid : ∀ f ∈ n.fields, ¬ (f.2.base = .primitive .void ∧ f.2.pointers = 0)
  lengths : ∀ f ∈ n.fields, ∀ v, f.2.array = some v → ∃ k : Int, 1 ≤ k ∧ v = .int k

section built

variable {name : TypeName} {d : Definition} {children : List Model} {stored : FieldList} {m : Model}

/-- The order of the nested models does not matter when fields are resolved. -/
theorem BuiltFrom.resolveStored_eq (hm : reg.BuiltFrom name d children stored m) (hd : d.Distinct)
    (f : Field) (type : TypeExpr) :
    reg.resolveStored (builtScope name children) f type =
      reg.resolveStored (builtScope m.name m.nested) f type := by
  rw [hm.name_eq, hm.nested_eq]
  refine resolveStored_congr (lookup_eq_of_perm ((List.mergeSort_perm children _).symm.map _) ?_) f type
  rw [List.map_map]
  show (children.map (·.metadataName)).Nodup
  rw [hm.map_metadataName]
  exact hd.names

theorem BuiltFrom.stored_eq_nil (hm : reg.BuiltFrom name d children stored m) :
    stored = [] ↔ d.stored = [] := by
  rw [← List.length_eq_zero_iff, ← List.length_eq_zero_iff, hm.resolved.length_eq]

theorem BuiltFrom.isIdentifier_of_mem (hm : reg.BuiltFrom name d children stored m)
    (hdeclared : d.Declared) : ∀ f ∈ stored, Code.IsIdentifier f.1 := by
  intro f hf
  obtain ⟨⟨field, type⟩, hfield, hname, -⟩ := exists_of_mem_right hm.resolved hf
  have hword := (hdeclared.fields field (Definition.mem_stored.1 hfield).1).word
  rw [hname]
  exact Code.isIdentifier_memberIdentifier fun hmark => absurd (hword _ hmark) (by decide)

theorem BuiltFrom.fieldNames (hm : reg.BuiltFrom name d children stored m)
    (hdeclared : d.Declared) :
    (m.fieldNames.map Code.bare).Nodup ∧ ∀ x ∈ m.fieldNames, Code.IsIdentifier x := by
  have hstored := hm.isIdentifier_of_mem hdeclared
  have hidentifiers := @FieldList.isIdentifier_of_mem_uniqueAfter [] stored hstored
  obtain ⟨-, hnodup⟩ := @FieldList.distinct_uniqueAfter [] stored
    fun f hf => (hstored f hf).markedOnce
  rw [Model.fieldNames, hm.fields_eq, FieldList.run_standardPasses]
  split
  · split
    · have hreserved : Code.IsIdentifier FieldList.reservedName := .inr (by decide)
      simpa using hreserved
    · simp
  · rw [List.map_map, List.map_map]
    refine ⟨hnodup, fun x hx => ?_⟩
    obtain ⟨f, hf, rfl⟩ := List.mem_map.1 hx
    obtain ⟨e, he, rfl⟩ := List.mem_map.1 hf
    exact hidentifiers e he

theorem BuiltFrom.forall₂_fields (hm : reg.BuiltFrom name d children stored m) (hd : d.Distinct)
    (hne : d.stored ≠ []) : List.Forall₂ (fun f entry =>
      FieldList.IsNamed (Code.memberIdentifier f.1.name) entry.1 ∧
      ∃ t, reg.resolveStored (builtScope m.name m.nested) f.1 f.2 = .ok t ∧
        entry.2 = if t.isDelegate then t.withPointers 0 else t) d.stored m.fields := by
  rw [hm.fields_eq, FieldList.run_standardPasses, if_neg (mt hm.stored_eq_nil.1 hne),
    List.forall₂_map_right_iff]
  refine (forall₂_trans hm.resolved (FieldList.forall₂_uniqueAfter [] stored)).imp ?_
  rintro f entry ⟨e, ⟨hname, ht⟩, hnamed, htype⟩
  rw [hname] at hnamed
  rw [hm.resolveStored_eq hd] at ht
  exact ⟨hnamed, e.2, ht, by rw [htype]; rfl⟩

/-- **Fields.**  The fields of a built model come from those that the text declares. -/
theorem BuiltFrom.fieldsOf (hm : reg.BuiltFrom name d children stored m) (hd : d.Distinct)
    (hdeclared : d.Declared) : reg.FieldsOf d m := by
  obtain ⟨hdistinct, hidentifiers⟩ := hm.fieldNames hdeclared
  have hpadded (hnone : d.stored = []) :
      m.fields = if m.guid.isAbsent then [("reserved", .ofPrimitive .u8)] else [] := by
    rw [hm.fields_eq, FieldList.run_standardPasses, if_pos (hm.stored_eq_nil.2 hnone)]
    rfl
  refine ⟨hdistinct, hidentifiers, hm.forall₂_fields hd, hpadded, fun f hf => ?_, fun f hf v hv => ?_⟩
  · rcases hm.of_mem_fields hf with heq | ⟨field, -, type, t, -, ht, heq⟩
    · rw [heq]
      simp [FieldType.ofPrimitive, FieldType.ofBase]
    · rw [heq]
      exact FieldType.fixDelegate_not_void (resolveStored_eq_ok.1 ht).2
  · rcases hm.of_mem_fields hf with heq | ⟨field, hfield, type, t, hkind, ht, heq⟩
    · rw [heq] at hv
      cases hv
    · rw [heq, FieldType.array_fixDelegate] at hv
      have hsized := (hdeclared.fields field hfield).sized type hkind
      have hlength := length_of_resolveExpr hsized (resolveStored_eq_ok.1 ht).1 hv
      cases v with
      | int k =>
        have hpositive : 0 < k := of_decide_eq_true hlength
        exact ⟨k, hpositive, rfl⟩
      | _ => cases hlength

end built

/-- **Fields of built models.**  In the walk of a model that is built from a text, every model has
fields with distinct names that can stand as identifiers, one for each stored field of its definition
in order of declaration, and none of them is `void` or has an empty array. -/
theorem fieldsOf_walk {file text : String} (hload : (ofText file text).result = .ok reg)
    {name : TypeName} {m n : Model} (hbuild : (reg.build name).result = .ok m) (hn : n ∈ m.walk) :
    ∃ d, reg.find? n.name.place = some d ∧ reg.FieldsOf d n := by
  have hreg := wellFormed_of_ofText hload
  obtain ⟨d, children, stored, hm⟩ := hreg.builtFrom (hreg.build_of_mem_walk hbuild hn).1
  exact ⟨d, hm.found, hm.fieldsOf (hreg.distinct_of_find? hm.found) (declared_of_ofText hload hm.found)⟩

end Registry

/-! ### A sample -/

namespace Sample

/-- A struct whose first two fields have the same identifier, with a delegate and an empty struct. -/
def fieldsText : String :=
  "namespace N { delegate D; struct A { Type: [u8; 2]; type: *mut D; e: _E; struct _E { } } }"

def fieldsRegistry : Registry :=
  ⟨[⟨"N", ⟨"D", .delegate, [], [], false, false, [], none, [], some "m", some 1, []⟩⟩,
    ⟨"N", ⟨"A", .struct, [⟨"Type", .stored (.array (.named "u8") (.int 2)), some 1⟩,
      ⟨"type", .stored (.pointer false (.named "D")), some 1⟩,
      ⟨"e", .stored (.named "_E"), some 1⟩], [], false, false, [], none, [], some "m", some 1,
      [⟨"_E", .struct, [], [], false, false, [], none, [], some "m", some 1, []⟩]⟩⟩]⟩

def fieldsInner : Model :=
  ⟨partName "_E" "A_0", false, [], [("reserved", .ofPrimitive .u8)], [], none, false, .absent, [],
    .full⟩

/-- The model of the struct: the second name got a number, and the delegate lost its pointer. -/
def fieldsModel : Model where
  name := nameOf "A"
  explicitLayout := false
  generics := []
  fields := [("r#type", ⟨.primitive .u8, 0, some (.int 2), false, none⟩),
    ("type2", .ofBase (.named ⟨⟨"N", "D", []⟩, .delegate, false, "N", "D"⟩)),
    ("e", .ofBase (.named (partName "_E" "A_0")))]
  constants := []
  signature := none
  isTypedef := false
  guid := .absent
  nested := [fieldsInner]
  shape := .full

theorem ofText_fields : (Registry.ofText "m" fieldsText).result = .ok fieldsRegistry := by cbv

theorem build_fields : (fieldsRegistry.build (nameOf "A")).result = .ok fieldsModel := by cbv

/-- The fields of the struct and of the one nested in it. -/
theorem fieldsOf_sample :
    (∃ d, fieldsRegistry.find? fieldsModel.name.place = some d ∧
      fieldsRegistry.FieldsOf d fieldsModel) ∧
    ∃ d, fieldsRegistry.find? fieldsInner.name.place = some d ∧
      fieldsRegistry.FieldsOf d fieldsInner :=
  ⟨Registry.fieldsOf_walk ofText_fields build_fields (Model.self_mem_walk _),
    Registry.fieldsOf_walk ofText_fields build_fields
      (Model.mem_walk.2 (.inr ⟨fieldsInner, List.mem_singleton_self _, Model.self_mem_walk _⟩))⟩

end Sample

end Bindery
