import Bindery.Proofs.Code.Path
import Bindery.Proofs.Code.Readback
import Bindery.Proofs.Metadata.Words
import Bindery.Proofs.Model.Fields
/-!
# Code without marks

Metadata has words for names and positive numbers for lengths, and so there are no commas and no line
feeds in the types and values that are written for a model that is built from a text, and no marks in
its identifiers (`Registry.legible_walk`).  That is what reading declarations back needs.
-/

namespace Bindery

open Code (IsPlain)
open Source (IsWord IsDotted continuesName)
open Text (Free)

/-! ### Types -/

namespace FieldType

/-- A type whose names and length hold no commas and no line feeds, as written in a module of the
namespace `source`. -/
structure Legible (source : String) (t : FieldType) : Prop where
  generic : ∀ name, t.base = .generic name → Free [',', '\n'] name
  named : ∀ n, t.base = .named n → Free [',', '\n'] (n.codePath source)
  length : ∀ v, t.array = some v → Free [',', '\n'] v.plain

variable {reg : Registry} {t : FieldType} {source : String}

theorem free_optionOf {path : String} (h : Free [',', '\n'] path) :
    Free [',', '\n'] (optionOf path) := by
  unfold optionOf
  rw [Text.free_append, Text.free_append]
  exact ⟨⟨by decide, h⟩, by decide⟩

theorem free_abiOf {path : String} (h : Free [',', '\n'] path) : Free [',', '\n'] (abiOf path) := by
  unfold abiOf
  rw [Text.free_append, Text.free_append]
  exact ⟨⟨by decide, h⟩, by decide⟩

theorem Legible.free_wrap (h : t.Legible source) {base : String} (hbase : Free [',', '\n'] base) :
    Free [',', '\n'] (t.wrap base) := by
  have helement : Free [',', '\n'] (String.join (List.replicate t.pointers.toNat
      (if t.isConst then "*const " else "*mut ")) ++ base) := by
    refine Text.free_append.2 ⟨Text.free_join fun x hx => ?_, hbase⟩
    rw [(List.mem_replicate.1 hx).2]
    split <;> decide
  unfold wrap
  dsimp only
  split
  · rename_i v hv
    simp only [Text.free_append] at helement ⊢
    exact ⟨⟨⟨⟨by decide, helement⟩, by decide⟩, h.length v hv⟩, by decide⟩
  · exact helement

theorem Legible.free_baseCode (h : t.Legible source) : Free [',', '\n'] (t.baseCode source) := by
  unfold baseCode
  cases hbase : t.base with
  | primitive p =>
    have hobject : Free [',', '\n'] "::windows::Object" := by decide
    cases p with
    | object => exact free_optionOf hobject
    | _ =>
      dsimp only
      decide
  | generic name => exact h.generic name hbase
  | named n =>
    dsimp only
    split
    · exact free_optionOf (h.named n hbase)
    · exact h.named n hbase

theorem Legible.free_fieldCode (h : t.Legible source) : Free [',', '\n'] (t.fieldCode source) :=
  h.free_wrap h.free_baseCode

theorem free_elementDefault (t : FieldType) : Free [',', '\n'] t.elementDefault := by
  unfold elementDefault
  repeat' split
  all_goals decide

theorem Legible.free_defaultCode (h : t.Legible source) {value : String}
    (hvalue : t.defaultCode reg = .ok value) : Free [',', '\n'] value := by
  unfold defaultCode at hvalue
  split at hvalue
  · cases hvalue
    exact free_elementDefault t
  · rename_i v hv
    obtain ⟨b, -, hvalue⟩ := bind_eq_ok.1 hvalue
    split at hvalue
    · cases hvalue
      simp only [Text.free_append]
      exact ⟨⟨⟨⟨by decide, free_elementDefault t⟩, by decide⟩, h.length v hv⟩, by decide⟩
    · cases hvalue
      decide

theorem Legible.free_baseAbi (h : t.Legible source) {base : String}
    (hbase : t.baseAbi reg source = .ok base) : Free [',', '\n'] base := by
  unfold baseAbi at hbase
  cases ht : t.base with
  | primitive p =>
    rw [ht] at hbase
    cases p <;> cases hbase <;> first | decide | exact h.free_baseCode
  | generic name =>
    rw [ht] at hbase
    cases hbase
    exact free_abiOf (h.generic name ht)
  | named n =>
    rw [ht] at hbase
    dsimp only at hbase
    split at hbase
    · cases hbase
      decide
    · cases hbase
      decide
    · cases hbase
      split
      · decide
      · exact h.free_baseCode
    · cases hbase
      exact h.free_baseCode
    · obtain ⟨b, -, hbase⟩ := bind_eq_ok.1 hbase
      split at hbase
      · cases hbase
        exact h.free_baseCode
      · cases hbase
        exact free_abiOf (h.named n ht)

theorem Legible.free_abiCode (h : t.Legible source) {code : String}
    (hcode : t.abiCode reg source = .ok code) : Free [',', '\n'] code := by
  unfold abiCode at hcode
  split at hcode
  · cases hcode
    exact h.free_fieldCode
  · obtain ⟨base, hbase, hcode⟩ := bind_eq_ok.1 hcode
    cases hcode
    exact h.free_wrap (h.free_baseAbi hbase)

end FieldType

/-! ### Names -/

theorem Code.free_itemPath {source target name : String} (htarget : Free [',', '\n'] target)
    (hname : Free [',', '\n'] name) : Free [',', '\n'] (itemPath source target name) := by
  rw [itemPath_eq]
  refine Text.free_intercalate (by decide) fun step hstep c hc => ?_
  have hmarks : [',', '\n'].all (fun c => !c.isLower && c ∉ ['_', '#']) = true := by decide
  have hother := List.all_eq_true.1 hmarks c hc
  simp only [Bool.and_eq_true, Bool.not_eq_true', decide_eq_true_eq] at hother
  exact not_mem_itemSteps hother.1 hother.2 (htarget c hc) (hname c hc) hstep

theorem free_of_isDotted {space : String} (h : IsDotted space) : Free [',', '\n'] space := by
  have hmarks : [',', '\n'].all (fun c => c != '.' && !continuesName c) = true := by decide
  intro c hc hmem
  have hother := List.all_eq_true.1 hmarks c hc
  rcases h c hmem with rfl | hword
  · simp at hother
  · simp [hword] at hother

theorem isWord_toString (k : Nat) : IsWord (toString k) := by
  intro c hc
  rw [Nat.toString_eq_repr, Nat.toList_repr] at hc
  simp [continuesName, Char.isAlphanum, isDigit_of_mem_toDigits hc]

/-- A member identifier is made of the letters of a name, and of marks of its own. -/
theorem Code.isPlain_memberIdentifier {name : String} (h : IsWord name) :
    IsPlain (memberIdentifier name) := by
  intro c hc
  by_contra hother
  rw [not_or] at hother
  have hlower : c.isLower = false := by
    by_contra hlower
    rw [Bool.not_eq_false] at hlower
    exact hother.1 (by simp [continuesName, Char.isAlphanum, Char.isAlpha, hlower])
  have hunderscore : c ≠ '_' := by
    rintro rfl
    exact hother.1 rfl
  refine not_mem_memberIdentifier hlower (by simp [hunderscore, hother.2]) (fun hmem => ?_) hc
  exact hother.1 (h c hmem)

theorem Code.isPlain_bare {x : String} (h : IsPlain x) : IsPlain (bare x) := by
  unfold bare
  split
  · rename_i rest heq
    intro c hc
    refine h c ?_
    rw [heq]
    rw [String.toList_ofList] at hc
    simp [hc]
  · exact h

theorem FieldList.isPlain_of_isNamed {name entry : String} (h : IsPlain name)
    (hnamed : IsNamed name entry) : IsPlain entry := by
  rcases hnamed with rfl | ⟨k, rfl⟩
  · exact h
  · intro c hc
    rcases List.mem_append.1 (String.toList_append ▸ hc) with hc | hc
    · exact Code.isPlain_bare h c hc
    · exact .inl (isWord_toString k c hc)

/-! ### Built models -/

namespace Registry

variable {reg : Registry} {file text : String} {name : TypeName} {m n : Model}

theorem isGeneric_of_resolveName {scope : Scope} {use : TypeUse} {x parameter : String}
    (h : reg.resolveName scope use x = .ok (.generic parameter)) :
    reg.isGeneric scope.owner parameter = true := by
  cases standsFor_of_resolveName h with
  | generic hgeneric => exact hgeneric

theorem isWord_of_isGeneric (hload : (ofText file text).result = .ok reg) {p : Place} {x : String}
    (h : reg.isGeneric p x = true) : IsWord x := by
  obtain ⟨d, hd, hx⟩ := List.any_eq_true.1 h
  obtain ⟨k, -, hfound⟩ := List.mem_filterMap.1 hd
  exact (spelled_of_ofText hload hfound).generics x (of_decide_eq_true hx)

theorem words_of_has (hload : (ofText file text).result = .ok reg) {t : TypeName} (hhas : reg.Has t)
    (htop : t.place.isNested = false) : IsDotted t.space ∧ IsWord t.name := by
  obtain ⟨d, hd, ht⟩ := hhas
  rw [ht]
  refine ⟨?_, (spelled_of_ofText hload hd).name⟩
  rw [Place.eq_of_isNested_eq_false htop, find?_top] at hd
  exact (words_of_ofText hload _ (mem_entries_of_lookup? hd).1).1

/-- Models go by words if the outermost one goes by the name of its definition. -/
theorem isWord_of_mem_walk (hload : (ofText file text).result = .ok reg)
    (hname : name.name = name.place.name) (hbuild : (reg.build name).result = .ok m)
    (hn : n ∈ m.walk) : IsWord n.name.name := by
  have hreg := wellFormed_of_ofText hload
  obtain ⟨d, _, _, hfrom⟩ := hreg.builtFrom hbuild
  have hroot : IsWord name.name := by
    rw [hname, ← name_of_find? hfrom.found]
    exact (spelled_of_ofText hload hfrom.found).name
  obtain ⟨ks, hks⟩ := hreg.exists_indexSuffix hbuild hn
  intro c hc
  rw [hks, List.mem_append] at hc
  rcases hc with hc | hc
  · exact hroot c hc
  · by_contra hother
    rw [Bool.not_eq_true, continuesName, Bool.or_eq_false_iff, decide_eq_false_iff_not,
      Char.isAlphanum, Bool.or_eq_false_iff] at hother
    exact not_mem_indexSuffix hother.2 hother.1.2 ks hc

theorem free_length {v : Value} (h : ∃ k : Int, 1 ≤ k ∧ v = .int k) : Free [',', '\n'] v.plain := by
  obtain ⟨k, hk, rfl⟩ := h
  obtain ⟨j, rfl⟩ := Int.eq_ofNat_of_zero_le (by omega : 0 ≤ k)
  exact (Code.free_of_isWord (isWord_toString j)).subset (by decide)

theorem legible_of_mem_fields (hload : (ofText file text).result = .ok reg)
    (hname : name.name = name.place.name) (hbuild : (reg.build name).result = .ok m)
    (hn : n ∈ m.walk) {f : String × FieldType} (hf : f ∈ n.fields) : f.2.Legible n.name.space := by
  have hreg := wellFormed_of_ofText hload
  obtain ⟨d, hd, hfields⟩ := fieldsOf_walk hload hbuild hn
  obtain ⟨d, children, stored, hfrom⟩ := hreg.builtFrom (hreg.build_of_mem_walk hbuild hn).1
  refine ⟨fun parameter hbase => ?_, fun t hbase => ?_,
    fun v hv => free_length (hfields.lengths f hf v hv)⟩
  · rcases hfrom.of_mem_fields hf with heq | ⟨field, -, type, t, -, ht, heq⟩
    · rw [heq] at hbase
      cases hbase
    · rw [heq, FieldType.base_fixDelegate] at hbase
      obtain ⟨x, hx⟩ := base_of_resolveExpr (resolveStored_eq_ok.1 ht).1
      rw [hbase] at hx
      have hword := isWord_of_isGeneric hload (isGeneric_of_resolveName hx)
      exact (Code.free_of_isWord hword).subset (by decide)
  · rcases hfrom.nested_or_top_of_mem_fields hf hbase with ⟨c, hc, rfl⟩ | ⟨hhas, htop⟩
    · -- a nested definition is written with the name of its model
      obtain ⟨inner, -, k, hcbuild⟩ := hfrom.of_mem_nested hc
      have hspace : c.name.space = n.name.space := by
        rw [name_of_build hcbuild]
        rfl
      rw [TypeName.codePath, Code.itemPath, if_pos hspace.symm]
      have hword := isWord_of_mem_walk hload hname hbuild (Model.mem_walk_of_mem_nested hn hc)
      exact (Code.free_of_isWord hword).subset (by decide)
    · obtain ⟨hspace, hword⟩ := words_of_has hload hhas htop
      exact Code.free_itemPath (free_of_isDotted hspace) ((Code.free_of_isWord hword).subset (by decide))

theorem isPlain_of_mem_fieldNames (hload : (ofText file text).result = .ok reg)
    (hbuild : (reg.build name).result = .ok m) (hn : n ∈ m.walk) {x : String}
    (hx : x ∈ n.fieldNames) : IsPlain x := by
  obtain ⟨d, hd, hfields⟩ := fieldsOf_walk hload hbuild hn
  obtain ⟨f, hf, rfl⟩ := List.mem_map.1 hx
  by_cases hnone : d.stored = []
  · rw [hfields.padded hnone] at hf
    split at hf
    · rw [List.mem_singleton.1 hf]
      have hword : "reserved".toList.all continuesName = true := by decide
      exact Code.isPlain_of_isWord (List.all_eq_true.1 hword)
    · cases hf
  · obtain ⟨⟨field, type⟩, hfield, hnamed, -⟩ := exists_of_mem_right (hfields.declared hnone) hf
    have hword := ((declared_of_ofText hload hd).fields field (Definition.mem_stored.1 hfield).1).word
    exact FieldList.isPlain_of_isNamed (Code.isPlain_memberIdentifier hword) hnamed

/-- What the texts for the model `n` are made of. -/
structure Legible (n : Model) : Prop where
  head : n.head.Worded
  names : ∀ x ∈ n.fieldNames, IsPlain x
  types : ∀ f ∈ n.fields, f.2.Legible n.name.space

/-- **Code without marks.**  In the walk of a model that is built from a text under the name of its
definition, every model has words in its head, identifiers without marks, and types without commas and
line feeds. -/
theorem legible_walk (hload : (ofText file text).result = .ok reg)
    (hname : name.name = name.place.name) (hbuild : (reg.build name).result = .ok m)
    (hn : n ∈ m.walk) : Legible n := by
  have hreg := wellFormed_of_ofText hload
  obtain ⟨d, children, stored, hfrom⟩ := hreg.builtFrom (hreg.build_of_mem_walk hbuild hn).1
  refine ⟨⟨isWord_of_mem_walk hload hname hbuild hn, ?_⟩,
    fun x hx => isPlain_of_mem_fieldNames hload hbuild hn hx,
    fun f hf => legible_of_mem_fields hload hname hbuild hn hf⟩
  rw [Model.head, hfrom.generics_eq]
  exact (spelled_of_ofText hload hfrom.found).generics

end Registry

end Bindery
