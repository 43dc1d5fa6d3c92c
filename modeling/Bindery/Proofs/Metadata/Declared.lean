import Bindery.Proofs.Metadata.Registry
import Bindery.Proofs.Source.Exact
/-!
# What texts can declare

The grammar takes only words for names, and only positive numbers are accepted as lengths.  So every
definition of a text that is read, however deep it is nested, has fields with such names and types
(`Definition.Declared`).
-/

namespace Bindery

/-! ### Words and lengths -/

/-- A word of letters, digits and underscores. -/
def Source.IsWord (name : String) : Prop := ∀ c ∈ name.toList, Source.continuesName c

/-- A type in which every array has a positive length. -/
def TypeExpr.Sized : TypeExpr → Prop
  | named _ => True
  | pointer _ element => element.Sized
  | array element length => element.Sized ∧ Source.isLength length

/-- A field that a text can declare. -/
structure Field.Declared (f : Field) : Prop where
  word : Source.IsWord f.name
  sized : ∀ type, f.kind = .stored type → type.Sized

/-- A definition that a text can declare, with everything nested in it. -/
inductive Definition.Declared : Definition → Prop
  | intro {d : Definition} (fields : ∀ f ∈ d.fields, f.Declared)
      (inside : ∀ n ∈ d.nested, Declared n) : Declared d

namespace Definition

variable {d n : Definition}

theorem Declared.fields (h : d.Declared) : ∀ f ∈ d.fields, f.Declared := by
  cases h
  assumption

theorem Declared.inside (h : d.Declared) : ∀ n ∈ d.nested, n.Declared := by
  cases h
  assumption

theorem Declared.of_find? (h : d.Declared) {steps : List String} (hn : d.find? steps = some n) :
    n.Declared :=
  of_find?_of_nested (fun _ k hd => hd.inside k) h hn

end Definition

namespace Source

variable {file : String} {winrt : Bool}

/-! ### Names in trees -/

/-- A member whose name is a word, if it is a field, and so are those of the members inside it. -/
inductive Member.Worded : Member → Prop
  | field {name : Located String} {type : TypeSource} (word : IsWord name.value) :
    Worded (.field name type)
  | constant {line : Nat} {name type : String} {value : Located Value} (word : IsWord name) :
    Worded (.constant line name type value)
  | nested {attributes : List AttributeSource} {heading : Heading} {members : List Member}
      (inside : ∀ m ∈ members, Worded m) : Worded (.nested attributes heading members)

section Grammar

open Grammar

variable {c c' : Cursor}

theorem isWord_of_name {token : Located String} (h : name c token c') : IsWord token.value := by
  obtain ⟨-, rfl, -⟩ := name_iff.1 h
  intro x hx
  rw [String.toList_ofList] at hx
  exact List.mem_takeWhile_imp hx

theorem isWord_of_nameText {word : String} (h : nameText c word c') : IsWord word := by
  obtain ⟨token, _, hname, rfl, -⟩ := h
  exact isWord_of_name hname

theorem forall_of_many {α : Type} {R : Rule α} {P : α → Prop} {as : List α} (h : Many R c as c')
    (hR : ∀ {c a c'}, R c a c' → P a) : ∀ a ∈ as, P a := by
  induction h with
  | nil => simp
  | cons ha _ ih => exact List.forall_mem_cons.2 ⟨hR ha, ih⟩

theorem worded_of_member {m : Member} (h : member c m c') : m.Worded := by
  refine @IsMember.rec (fun _ m _ _ => m.Worded) (fun _ ms _ _ => ∀ m ∈ ms, m.Worded)
    ?field ?constant ?nested ?nil ?cons c m c' h
  case field =>
    rintro c c' _ ⟨token, _, hname, _, _, -, _, _, -, _, _, -, rfl, -⟩
    exact .field (isWord_of_name hname)
  case constant =>
    rintro c c' _ ⟨_, _, -, word, _, hname, _, _, -, _, _, -, _, _, -, _, _, -, _, _, -, rfl, -⟩
    exact .constant (isWord_of_nameText hname)
  case nested => exact fun _ _ _ _ _ inside => .nested inside
  case nil => exact List.forall_mem_nil _
  case cons => exact fun _ _ hm hms => List.forall_mem_cons.2 ⟨hm, hms⟩

theorem worded_of_definition {d : DefinitionSource} (h : definition c d c') :
    ∀ m ∈ d.body.members, m.Worded := by
  obtain ⟨_, _, -, _, _, -, body, _, hbody, rfl, -⟩ := h
  rcases hbody with ⟨_, _, -, ms, _, ⟨_, _, -, _, _, hms, _, _, -, rfl, -⟩, rfl, -⟩ | h
  · exact forall_of_many hms worded_of_member
  · -- the other definitions have no members
    have hmembers : body.members = [] := by
      rcases h with h | h | h | h
      · obtain ⟨_, _, -, _, _, -, _, _, -, _, _, -, _, _, -, _, _, -, rfl, -⟩ := h
        rfl
      all_goals
        obtain ⟨_, _, -, _, _, -, _, _, -, rfl, -⟩ := h
        rfl
    simp [hmembers]

/-- What is true of every definition that the grammar yields, and of the name of a namespace around
it, is true throughout a tree that is read. -/
theorem forall_of_read {P : DottedName → DefinitionSource → Prop} {text : List Char}
    {document : Document} (h : read text = .ok document)
    (hP : ∀ {c space c' e d e'}, dottedName c space c' → definition e d e' → P space d) :
    ∀ block ∈ document, ∀ d ∈ block.definitions, P block.name d := by
  obtain ⟨_, _, hdocument, -⟩ := read_eq_ok_iff.1 h
  refine forall_of_many hdocument fun hblock => ?_
  obtain ⟨_, _, -, _, _, hspace, _, _, -, ds, _, hds, _, _, -, rfl, -⟩ := hblock
  exact forall_of_many hds (hP hspace)

theorem worded_of_read {text : List Char} {document : Document} (h : read text = .ok document) :
    ∀ block ∈ document, ∀ d ∈ block.definitions, ∀ m ∈ d.body.members, m.Worded :=
  forall_of_read (P := fun _ d => ∀ m ∈ d.body.members, m.Worded) h fun _ => worded_of_definition

end Grammar

/-! ### Definitions of a text -/

theorem sized_of_typeExpr {source : TypeSource} {type : TypeExpr}
    (h : source.typeExpr file = .ok type) : type.Sized := by
  induction source generalizing type with
  | named name =>
    cases h
    trivial
  | pointer line isConst element ih =>
    rw [TypeSource.typeExpr, bind_eq_ok] at h
    obtain ⟨inner, hinner, h⟩ := h
    cases h
    exact show inner.Sized from ih hinner
  | array line element length ih =>
    rw [TypeSource.typeExpr] at h
    split at h
    · rename_i hlength
      obtain ⟨inner, hinner, h⟩ := bind_eq_ok.1 h
      cases h
      exact ⟨ih hinner, hlength⟩
    · cases h

theorem declared_of_field? {m : Member} {f : Field} (hm : m.Worded)
    (h : m.field? file = .ok (some f)) : f.Declared := by
  cases hm with
  | field word =>
    rw [Member.field?, bind_eq_ok] at h
    obtain ⟨type, htype, h⟩ := h
    cases h
    refine ⟨word, fun type' hkind => ?_⟩
    cases hkind
    exact sized_of_typeExpr htype
  | constant word =>
    cases h
    exact ⟨word, fun _ hkind => nomatch hkind⟩
  | nested => cases h

theorem declared_of_fieldsOf {members : List Member} {fields : List Field}
    (hmembers : ∀ m ∈ members, m.Worded) (h : fieldsOf file members = .ok fields) :
    ∀ f ∈ fields, f.Declared := by
  obtain ⟨parts, hparts, h⟩ := bind_eq_ok.1 h
  cases h
  intro f hf
  obtain ⟨part, hpart, rfl⟩ := List.mem_filterMap.1 hf
  obtain ⟨m, hm, hfield⟩ := exists_of_mem_right (mapM_eq_ok.1 hparts) hpart
  exact declared_of_field? (hmembers m hm) hfield

theorem declared_of_heading {attributes : List AttributeSource} {heading : Heading}
    {members : List Member} {d : Definition} (hmembers : ∀ m ∈ members, m.Worded)
    (h : heading.definition file attributes winrt members = .ok d) :
    ∀ f ∈ d.fields, f.Declared := by
  unfold Heading.definition at h
  dsimp only at h
  split at h
  · cases h
  · obtain ⟨fields, hfields, h⟩ := bind_eq_ok.1 h
    cases h
    exact declared_of_fieldsOf hmembers hfields

theorem declared_of_body {attributes : List AttributeSource} {body : Body} {d : Definition}
    (hmembers : ∀ m ∈ body.members, m.Worded)
    (h : body.definition file attributes winrt = .ok d) : ∀ f ∈ d.fields, f.Declared := by
  cases body with
  | aggregate heading members => exact declared_of_heading hmembers h
  | enumeration | bodiless =>
    cases h
    exact List.forall_mem_nil _

theorem declared_of_nestedOf {p : Place} {earlier ds : List Definition} {members : List Member}
    (hmembers : ∀ m ∈ members, m.Worded) (hearlier : ∀ d ∈ earlier, d.Declared)
    (h : (nestedOf file winrt p earlier members).result = .ok ds) : ∀ d ∈ ds, d.Declared := by
  induction p, earlier, members using nestedOf.induct generalizing ds with
  | case1 p earlier =>
    rw [nestedOf] at h
    cases h
    exact hearlier
  | case2 p earlier attributes heading members rest ihInner ihRest =>
    obtain ⟨hm, hrest⟩ := List.forall_mem_cons.1 hmembers
    cases hm with
    | nested inside =>
      obtain ⟨d, hd, -, inner, hinner, h⟩ := nestedOf_nested_eq_ok.1 h
      have hfields : ∀ f ∈ d.fields, f.Declared := declared_of_heading inside hd
      have hin := ihInner d inside (by simp) hinner
      refine ihRest d inner hrest (List.forall_mem_append.2 ⟨hearlier, ?_⟩) h
      exact List.forall_mem_singleton.2 (.intro hfields hin)
  | case3 p earlier name type rest ih =>
    rw [nestedOf] at h
    exact ih (List.forall_mem_cons.1 hmembers).2 hearlier h
  | case4 p earlier line name type value rest ih =>
    rw [nestedOf] at h
    exact ih (List.forall_mem_cons.1 hmembers).2 hearlier h

theorem declared_of_enter {space : String} {reg reg' : Registry} {source : DefinitionSource}
    (hmembers : ∀ m ∈ source.body.members, m.Worded) (hreg : ∀ e ∈ reg.entries, e.definition.Declared)
    (h : (source.enter file space reg).result = .ok reg') :
    ∀ e ∈ reg'.entries, e.definition.Declared := by
  unfold DefinitionSource.enter at h
  simp only [Traced.result_bind, Traced.result_lift, bind_eq_ok'] at h
  obtain ⟨d, hd, -, -, -, -, nested, hnested, h⟩ := h
  unfold Registry.add at h
  split at h
  · cases h
  · cases h
    intro e he
    rcases List.mem_append.1 he with he | he
    · exact hreg e he
    · rw [List.mem_singleton.1 he]
      have hfields : ∀ f ∈ d.fields, f.Declared := declared_of_body hmembers hd
      exact .intro hfields (declared_of_nestedOf hmembers (by simp) hnested)

end Source

namespace Registry

/-- **What texts declare.**  In the registry of a text, the fields of every definition have words for
names and arrays of positive lengths. -/
theorem declared_of_ofText {file text : String} {reg : Registry}
    (h : (ofText file text).result = .ok reg) {p : Place} {d : Definition}
    (hd : reg.find? p = some d) : d.Declared := by
  have hentries : ∀ e ∈ reg.entries, e.definition.Declared := by
    refine of_ofText (P := fun r => ∀ e ∈ r.entries, e.definition.Declared) (by simp [empty]) ?_ h
    intro document hread block hblock source hsource r r' hr h
    exact Source.declared_of_enter (Source.worded_of_read hread block hblock source hsource) hr h
  obtain ⟨root, hroot, hd⟩ := Option.bind_eq_some_iff.1 hd
  exact (hentries _ (mem_entries_of_lookup? hroot).1).of_find? hd

end Registry

end Bindery
