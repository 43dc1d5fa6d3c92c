import Bindery.FieldType.Resolution
import Bindery.Proofs.Metadata.Declared
/-!
# What a registry contains

What is written in a source tree, apart from whether it can be accepted; and that a text is accepted
if and only if its arrays have positive lengths, WinRT definitions have no generic parameters, and
no two definitions side by side have one name.  The registry then contains what is written and
nothing else.
-/

namespace Bindery

namespace Source

variable {file : String} {winrt : Bool}

/-! ### Fields as they are written -/

/-- The declared type, whatever the lengths of arrays. -/
def TypeSource.written : TypeSource → TypeExpr
  | named name => .named name.text
  | pointer _ isConst element => .pointer isConst element.written
  | array _ element length => .array element.written length

/-- Every array has a positive length. -/
def TypeSource.Sized : TypeSource → Prop
  | named _ => True
  | pointer _ _ element => element.Sized
  | array _ element length => isLength length = true ∧ element.Sized

theorem TypeSource.typeExpr_eq_ok {source : TypeSource} {type : TypeExpr} :
    source.typeExpr file = .ok type ↔ source.Sized ∧ type = source.written := by
  induction source generalizing type with
  | named name => simp [typeExpr, Sized, written, eq_comm]
  | pointer line isConst element ih => exact bind_pure_eq_ok (fun _ => ih) _
  | array line element length ih =>
    rw [typeExpr, Sized, written]
    split
    · rename_i hlength
      rw [bind_pure_eq_ok (fun _ => ih), and_iff_right hlength]
    · rename_i hlength
      simp [hlength]

namespace Member

/-- The field or constant that a member declares, if it is one. -/
def written? : Member → Option Field
  | field name type => some ⟨name.value, .stored type.written, some name.line⟩
  | constant line name type value => some ⟨name, .literal (some ⟨value.value, type⟩), some line⟩
  | nested .. => none

/-- The name of a struct or union that is nested. -/
def nestedName? : Member → Option String
  | nested _ heading _ => some heading.name
  | field .. | constant .. => none

/-- Every array of a field has a positive length. -/
def Sized : Member → Prop
  | field _ type => type.Sized
  | constant .. | nested .. => True

theorem field?_eq_ok {m : Member} {f : Option Field} :
    m.field? file = .ok f ↔ m.Sized ∧ f = m.written? := by
  cases m with
  | field name type => exact bind_pure_eq_ok (fun _ => TypeSource.typeExpr_eq_ok) _
  | constant | nested => simp [field?, Sized, written?, pure, Except.pure, eq_comm]

end Member

/-- The fields that members declare. -/
def fieldsWritten (members : List Member) : List Field := members.filterMap Member.written?

theorem fieldsOf_eq_ok {members : List Member} {fields : List Field} :
    fieldsOf file members = .ok fields ↔
      (∀ m ∈ members, m.Sized) ∧ fields = fieldsWritten members := by
  have hparts (parts : List (Option Field)) : members.mapM (·.field? file) = .ok parts ↔
      (∀ m ∈ members, m.Sized) ∧ parts = members.map Member.written? :=
    mapM_eq_ok_map fun _ _ => Member.field?_eq_ok
  rw [fieldsOf, bind_pure_eq_ok hparts, List.filterMap_map]
  rfl

/-! ### Definitions as they are written -/

def blank (file : String) (attributes : List AttributeSource) (winrt : Bool) (category : Category)
    (line : Nat) (name : String) : Definition where
  name
  category
  fields := []
  attributes := attributes.map (·.attribute)
  explicitLayout := false
  winrt
  generics := []
  underlying := none
  enumValues := []
  file := some file
  line := some line
  nested := []

def Heading.parameters (h : Heading) : List String := (h.generics.map (·.value)).getD []

/-- A struct or union without its nested definitions. -/
def Heading.written (file : String) (attributes : List AttributeSource) (winrt : Bool) (h : Heading)
    (members : List Member) : Definition :=
  { blank file attributes winrt .struct h.line h.name with
    fields := fieldsWritten members
    explicitLayout := h.isUnion
    generics := h.parameters }

/-- The definitions nested directly among members, in the order of the text, each with those nested
in it. -/
def nestedWritten (file : String) (winrt : Bool) : List Member → List Definition
  | [] => []
  | .nested attributes heading members :: rest =>
    { heading.written file attributes winrt members with
      nested := nestedWritten file winrt members } :: nestedWritten file winrt rest
  | .field .. :: rest => nestedWritten file winrt rest
  | .constant .. :: rest => nestedWritten file winrt rest

def Body.written (file : String) (attributes : List AttributeSource) (winrt : Bool) :
    Body → Definition
  | aggregate heading members => heading.written file attributes winrt members
  | enumeration line name underlying items =>
    { blank file attributes winrt .enum line name with
      underlying := some (underlying.getD "i32")
      enumValues := items.map fun item => (item.name.value, item.number.getD .none) }
  | bodiless kind line name => blank file attributes winrt kind.category line name

/-- A definition with everything nested in it.  What is nested is of WinRT if the definition is. -/
def DefinitionSource.written (file : String) (s : DefinitionSource) : Definition :=
  { s.body.written file s.attributes s.winrt.isSome with
    nested := nestedWritten file s.winrt.isSome s.body.members }

/-- The top-level definitions of a text, in its order, each with its namespace. -/
def Document.sources (document : Document) : List (String × DefinitionSource) :=
  document.flatMap fun block => block.definitions.map (block.name.text, ·)

/-- The entries of a registry for the top-level definitions of a text. -/
def Document.entries (file : String) (document : Document) : List Entry :=
  document.sources.map fun s => ⟨s.1, s.2.written file⟩

/-! ### What can be accepted -/

abbrev Struct := Heading × List Member

def nestedNames (members : List Member) : List String := members.filterMap Member.nestedName?

/-- The structs among members, at every depth. -/
def structsIn : List Member → List Struct
  | [] => []
  | .nested _ heading members :: rest => (heading, members) :: (structsIn members ++ structsIn rest)
  | .field .. :: rest => structsIn rest
  | .constant .. :: rest => structsIn rest

/-- The structs in a definition, itself among them. -/
def Body.structs : Body → List Struct
  | aggregate heading members => (heading, members) :: structsIn members
  | enumeration .. | bodiless .. => []

def Body.name : Body → String
  | aggregate heading _ => heading.name
  | enumeration _ name .. => name
  | bodiless _ _ name => name

/-- The place of a top-level definition: its namespace and its name. -/
def topPlace (s : String × DefinitionSource) : Place := ⟨s.1, s.2.body.name, []⟩

namespace Document

def Sized (document : Document) : Prop :=
  ∀ s ∈ document.sources, ∀ t ∈ s.2.body.structs, ∀ m ∈ t.2, m.Sized

/-- No definition of WinRT, at whatever depth, has generic parameters. -/
def PlainWinrt (document : Document) : Prop :=
  ∀ s ∈ document.sources, s.2.winrt.isSome → ∀ t ∈ s.2.body.structs, t.1.parameters = []

/-- Definitions nested in the same one have different names. -/
def DistinctNested (document : Document) : Prop :=
  ∀ s ∈ document.sources, ∀ t ∈ s.2.body.structs, (nestedNames t.2).Nodup

/-- Top-level definitions have different names, or stand in different namespaces. -/
def DistinctTop (document : Document) : Prop := (document.sources.map topPlace).Nodup

end Document

/-! ### What is accepted -/

/-- A struct that can be accepted apart from the names of what is nested in it. -/
structure Admitted (winrt : Bool) (t : Struct) : Prop where
  generics : winrt = true → t.1.parameters = []
  sized : ∀ m ∈ t.2, m.Sized

theorem Heading.definition_eq_ok {attributes : List AttributeSource} {h : Heading}
    {members : List Member} {d : Definition} :
    h.definition file attributes winrt members = .ok d ↔
      Admitted winrt (h, members) ∧ d = h.written file attributes winrt members := by
  unfold Heading.definition
  dsimp only
  split
  · rename_i hgeneric
    refine iff_of_false nofun fun hd => ?_
    have hnone := hd.1.generics
    simp [Heading.parameters] at hgeneric hnone
    exact hgeneric.2 (hnone hgeneric.1)
  · rename_i hplain
    have hgenerics : winrt = true → h.parameters = [] := by
      simpa [Heading.parameters] using hplain
    refine (bind_pure_eq_ok (fun _ => fieldsOf_eq_ok) _).trans ?_
    exact and_congr_left fun _ => ⟨fun hsized => ⟨hgenerics, hsized⟩, Admitted.sized⟩

theorem Body.definition_eq_ok {attributes : List AttributeSource} {body : Body} {d : Definition} :
    body.definition file attributes winrt = .ok d ↔
      (∀ heading members, body = .aggregate heading members → Admitted winrt (heading, members)) ∧
        d = body.written file attributes winrt := by
  cases body with
  | aggregate heading members =>
    rw [Body.definition, Heading.definition_eq_ok]
    simp [Body.written]
  | enumeration | bodiless =>
    simp [Body.definition, Body.written, blank, pure, Except.pure, eq_comm]

@[simp] theorem Body.name_written (file : String) (attributes : List AttributeSource) (winrt : Bool)
    (body : Body) : (body.written file attributes winrt).name = body.name := by
  cases body <;> rfl

/-- **Nested definitions.**  They are read if each can be accepted and each has a name of its own;
and they are read as they are written. -/
theorem nestedOf_eq_ok {p : Place} {earlier ds : List Definition} {members : List Member} :
    (nestedOf file winrt p earlier members).result = .ok ds ↔
      (∀ t ∈ structsIn members, Admitted winrt t ∧ (nestedNames t.2).Nodup) ∧
      (nestedNames members).Nodup ∧ (∀ d ∈ earlier, d.name ∉ nestedNames members) ∧
      ds = earlier ++ nestedWritten file winrt members := by
  induction p, earlier, members using nestedOf.induct generalizing ds with
  | case1 p earlier => simp [nestedOf, structsIn, nestedWritten, nestedNames, eq_comm]
  | case2 p earlier attributes heading members rest ihInner ihRest =>
    have hnames : nestedNames (.nested attributes heading members :: rest) =
        heading.name :: nestedNames rest := rfl
    rw [nestedOf_nested_eq_ok, structsIn, nestedWritten, hnames, List.forall_mem_cons,
      List.forall_mem_append, List.nodup_cons]
    simp only [Heading.definition_eq_ok]
    constructor
    · rintro ⟨d, ⟨hadmitted, rfl⟩, hfresh, inner, hinner, h⟩
      obtain ⟨hinside, hinsideNames, -, rfl⟩ := (ihInner _).1 hinner
      obtain ⟨hrest, hrestNames, hearlier, rfl⟩ := (ihRest _ _).1 h
      rw [List.forall_mem_append, List.forall_mem_singleton] at hearlier
      refine ⟨⟨⟨hadmitted, hinsideNames⟩, hinside, hrest⟩, ⟨hearlier.2, hrestNames⟩,
        fun n hn hmem => ?_, by rw [List.append_assoc, List.nil_append]; rfl⟩
      rcases List.mem_cons.1 hmem with hname | hmem
      · exact hfresh n hn hname
      · exact hearlier.1 n hn hmem
    · rintro ⟨⟨⟨hadmitted, hinsideNames⟩, hinside, hrest⟩, ⟨hname, hrestNames⟩, hearlier, rfl⟩
      have hfresh : ∀ n ∈ earlier, n.name ≠ heading.name := fun n hn heq =>
        hearlier n hn (List.mem_cons.2 (.inl heq))
      refine ⟨_, ⟨hadmitted, rfl⟩, hfresh, _, (ihInner _).2 ⟨hinside, hinsideNames, by simp, rfl⟩,
        (ihRest _ _).2 ⟨hrest, hrestNames, ?_, by rw [List.append_assoc, List.nil_append]; rfl⟩⟩
      rw [List.forall_mem_append, List.forall_mem_singleton]
      exact ⟨fun n hn hmem => hearlier n hn (List.mem_cons_of_mem _ hmem), hname⟩
  | case3 p earlier name type rest ih =>
    rw [nestedOf, structsIn, nestedWritten]
    exact ih
  | case4 p earlier line name type value rest ih =>
    rw [nestedOf, structsIn, nestedWritten]
    exact ih

/-- A definition that can be accepted apart from its own name. -/
def DefinitionSource.Accepted (s : DefinitionSource) : Prop :=
  ∀ t ∈ s.body.structs, Admitted s.winrt.isSome t ∧ (nestedNames t.2).Nodup

theorem DefinitionSource.accepted_iff {s : DefinitionSource} :
    s.Accepted ↔
      (∀ heading members, s.body = .aggregate heading members →
        Admitted s.winrt.isSome (heading, members)) ∧
      (∀ t ∈ structsIn s.body.members, Admitted s.winrt.isSome t ∧ (nestedNames t.2).Nodup) ∧
      (nestedNames s.body.members).Nodup := by
  obtain ⟨attributes, mark, body⟩ := s
  cases body with
  | aggregate heading members =>
    simp only [Accepted, Body.structs, Body.members, List.forall_mem_cons, Body.aggregate.injEq]
    constructor
    · rintro ⟨⟨hadmitted, hnames⟩, hinside⟩
      exact ⟨fun _ _ ⟨hheading, hmembers⟩ => hheading ▸ hmembers ▸ hadmitted, hinside, hnames⟩
    · rintro ⟨hadmitted, hinside, hnames⟩
      exact ⟨⟨hadmitted _ _ ⟨rfl, rfl⟩, hnames⟩, hinside⟩
  | enumeration | bodiless =>
    simp [Accepted, Body.structs, Body.members, structsIn, nestedNames]

end Source

namespace Registry

variable {file text space name : String} {reg reg' : Registry} {d : Definition}

theorem isSome_lookup?_iff :
    (reg.lookup? space name).isSome ↔ (⟨space, name, []⟩ : Place) ∈ reg.topLevel := by
  rw [lookup?, Option.isSome_map, List.find?_isSome, topLevel, List.mem_map]
  simp [Entry.place]

theorem add_eq_ok : reg.add space d = .ok reg' ↔
    (⟨space, d.name, []⟩ : Place) ∉ reg.topLevel ∧ reg' = ⟨reg.entries ++ [⟨space, d⟩]⟩ := by
  rw [← isSome_lookup?_iff, add]
  split
  · rename_i hsome
    simp [hsome]
  · rename_i hnone
    simp [hnone, eq_comm]

end Registry

namespace Source

variable {file space : String} {reg reg' : Registry}

/-- One more definition is entered as it is written, if its name is new in its namespace. -/
theorem DefinitionSource.enter_eq_ok {s : DefinitionSource} :
    (s.enter file space reg).result = .ok reg' ↔
      s.Accepted ∧ (⟨space, s.body.name, []⟩ : Place) ∉ reg.topLevel ∧
        reg' = ⟨reg.entries ++ [⟨space, s.written file⟩]⟩ := by
  have hwinrt : (s.body.written file s.attributes s.winrt.isSome).winrt = s.winrt.isSome := by
    cases s.body <;> rfl
  unfold enter
  simp only [Traced.result_bind, Traced.result_lift, Traced.result_tell, bind_eq_ok',
    Body.definition_eq_ok, Registry.add_eq_ok, accepted_iff]
  constructor
  · rintro ⟨d, ⟨hbody, rfl⟩, -, ⟨hfresh, -⟩, -, -, nested, hnested, -, rfl⟩
    rw [hwinrt] at hnested
    obtain ⟨hinside, hnames, -, rfl⟩ := nestedOf_eq_ok.1 hnested
    rw [Body.name_written] at hfresh
    exact ⟨⟨hbody, hinside, hnames⟩, hfresh, rfl⟩
  · rintro ⟨⟨hbody, hinside, hnames⟩, hfresh, rfl⟩
    rw [← Body.name_written file s.attributes s.winrt.isSome] at hfresh
    refine ⟨_, ⟨hbody, rfl⟩, _, ⟨hfresh, rfl⟩, (), trivial, _, ?_, hfresh, rfl⟩
    rw [hwinrt]
    exact nestedOf_eq_ok.2 ⟨hinside, hnames, by simp, rfl⟩

theorem foldlM_enter_eq_ok {sources : List (String × DefinitionSource)} :
    sources.foldlM (fun reg s => (s.2.enter file s.1 reg).result) reg = .ok reg' ↔
      (∀ s ∈ sources, s.2.Accepted) ∧ (sources.map topPlace).Nodup ∧
      (∀ s ∈ sources, topPlace s ∉ reg.topLevel) ∧
      reg' = ⟨reg.entries ++ sources.map fun s => ⟨s.1, s.2.written file⟩⟩ := by
  induction sources generalizing reg with
  | nil => simp [pure, Except.pure, eq_comm]
  | cons s sources ih =>
    have hname : (s.2.written file).name = s.2.body.name := Body.name_written ..
    simp only [List.foldlM_cons, bind_eq_ok, DefinitionSource.enter_eq_ok, ih, List.forall_mem_cons,
      List.map_cons, List.nodup_cons]
    constructor
    · rintro ⟨_, ⟨haccepted, hfresh, rfl⟩, hrest, hnodup, hfreshRest, rfl⟩
      have hsplit : ∀ s' ∈ sources, topPlace s' ∉ reg.topLevel ∧ topPlace s' ≠ topPlace s := by
        intro s' hs'
        have hnot := hfreshRest s' hs'
        simp only [Registry.topLevel, List.map_append, List.map_singleton, List.mem_append,
          List.mem_singleton, not_or, Entry.place, hname] at hnot
        exact hnot
      refine ⟨⟨haccepted, hrest⟩, ⟨fun hmem => ?_, hnodup⟩,
        ⟨hfresh, fun s' hs' => (hsplit s' hs').1⟩, by rw [List.append_assoc]; rfl⟩
      obtain ⟨s', hs', heq⟩ := List.mem_map.1 hmem
      exact (hsplit s' hs').2 heq
    · rintro ⟨⟨haccepted, hrest⟩, ⟨hnot, hnodup⟩, ⟨hfresh, hfreshRest⟩, rfl⟩
      refine ⟨_, ⟨haccepted, hfresh, rfl⟩, hrest, hnodup, fun s' hs' => ?_,
        by rw [List.append_assoc]; rfl⟩
      simp only [Registry.topLevel, List.map_append, List.map_singleton, List.mem_append,
        List.mem_singleton, not_or, Entry.place, hname]
      exact ⟨hfreshRest s' hs', fun heq => hnot (List.mem_map.2 ⟨s', hs', heq⟩)⟩

/-- The definitions of a text are entered one after the other, whatever block they are in. -/
theorem result_foldlM_enter (document : Document) (reg : Registry) :
    (document.foldlM (NamespaceSource.enter file) reg).result =
      document.sources.foldlM (fun reg s => (s.2.enter file s.1 reg).result) reg := by
  rw [Traced.result_foldlM]
  induction document generalizing reg with
  | nil => rfl
  | cons block document ih =>
    have hsources : Document.sources (block :: document) =
        block.definitions.map (block.name.text, ·) ++ Document.sources document := rfl
    rw [hsources, List.foldlM_append, List.foldlM_map, List.foldlM_cons, NamespaceSource.enter,
      Traced.result_foldlM]
    exact congrArg _ (funext ih)

theorem Document.accepted_iff {document : Document} :
    (∀ s ∈ document.sources, s.2.Accepted) ↔
      document.Sized ∧ document.PlainWinrt ∧ document.DistinctNested := by
  constructor
  · intro h
    exact ⟨fun s hs t ht => (h s hs t ht).1.sized,
      fun s hs hwinrt t ht => (h s hs t ht).1.generics hwinrt,
      fun s hs t ht => (h s hs t ht).2⟩
  · rintro ⟨hsized, hplain, hnames⟩ s hs t ht
    exact ⟨⟨fun hwinrt => hplain s hs hwinrt t ht, hsized s hs t ht⟩, hnames s hs t ht⟩

/-! ### Names as they are written -/

section Names

open Grammar

variable {c c' : Cursor}

theorem mem_of_mem_intercalate {α : Type} {sep : List α} {ls : List (List α)} {a : α}
    (h : a ∈ sep.intercalate ls) : a ∈ sep ∨ ∃ l ∈ ls, a ∈ l := by
  induction ls with
  | nil => simp at h
  | cons l ls ih =>
    by_cases hls : ls = []
    · subst hls
      rw [List.intercalate_singleton] at h
      exact .inr ⟨l, List.mem_cons_self, h⟩
    · rw [List.intercalate_cons_of_ne_nil hls, List.mem_append, List.mem_append] at h
      rcases h with (h | h) | h
      · exact .inr ⟨l, List.mem_cons_self, h⟩
      · exact .inl h
      · obtain hsep | ⟨l', hl', ha⟩ := ih h
        · exact .inl hsep
        · exact .inr ⟨l', List.mem_cons_of_mem _ hl', ha⟩

/-- Words with dots between them. -/
def IsDotted (space : String) : Prop := ∀ x ∈ space.toList, x = '.' ∨ continuesName x

theorem isDotted_of_dottedName {n : DottedName} (h : dottedName c n c') : IsDotted n.text := by
  obtain ⟨first, _, hfirst, others, _, hothers, rfl, -⟩ := h
  have hwords : ∀ word ∈ first.value :: others, IsWord word := by
    refine List.forall_mem_cons.2 ⟨isWord_of_name hfirst, forall_of_many hothers ?_⟩
    rintro _ word _ ⟨_, _, -, hword⟩
    exact isWord_of_nameText hword
  intro x hx
  rw [DottedName.text, String.toList_intercalate] at hx
  rcases mem_of_mem_intercalate hx with hdot | ⟨_, hpart, hx⟩
  · exact .inl (List.mem_singleton.1 hdot)
  · obtain ⟨word, hword, rfl⟩ := List.mem_map.1 hpart
    exact .inr (hwords word hword x hx)

theorem isWord_of_body {b : Body} (h : body c b c') : IsWord b.name := by
  rcases h with h | h | h | h | h
  · obtain ⟨_, _, ⟨_, _, -, _, _, hname, _, _, -, rfl, -⟩, _, _, -, rfl, -⟩ := h
    exact isWord_of_nameText hname
  · obtain ⟨_, _, -, _, _, hname, _, _, -, _, _, -, _, _, -, _, _, -, rfl, -⟩ := h
    exact isWord_of_nameText hname
  all_goals
    obtain ⟨_, _, -, _, _, hname, _, _, -, rfl, -⟩ := h
    exact isWord_of_nameText hname

theorem forall_sources_of_read {P : String → DefinitionSource → Prop} {text : List Char}
    {document : Document} (h : read text = .ok document)
    (hP : ∀ {c space c' e d e'}, dottedName c space c' → definition e d e' → P space.text d) :
    ∀ s ∈ document.sources, P s.1 s.2 := by
  intro s hs
  obtain ⟨block, hblock, hs⟩ := List.mem_flatMap.1 hs
  obtain ⟨source, hsource, rfl⟩ := List.mem_map.1 hs
  exact forall_of_read (P := fun space d => P space.text d) h hP block hblock source hsource

theorem words_of_read {text : List Char} {document : Document} (h : read text = .ok document) :
    ∀ s ∈ document.sources, IsDotted s.1 ∧ IsWord s.2.body.name := by
  refine forall_sources_of_read (P := fun space d => IsDotted space ∧ IsWord d.body.name) h ?_
  rintro _ _ _ _ _ _ hspace ⟨_, _, -, _, _, -, b, _, hb, rfl, -⟩
  exact ⟨isDotted_of_dottedName hspace, isWord_of_body hb⟩

end Names

end Source

/-! ### The registry of a text -/

/-- Definitions that are all of WinRT, or none of them; if they are, without generic parameters. -/
inductive Definition.Uniform (winrt : Bool) : Definition → Prop
  | intro {d : Definition} (mark : d.winrt = winrt) (generics : winrt = true → d.generics = [])
      (inside : ∀ n ∈ d.nested, Uniform winrt n) : Uniform winrt d

namespace Definition.Uniform

variable {winrt : Bool} {d n : Definition} {steps : List String}

theorem mark (h : d.Uniform winrt) : d.winrt = winrt := by
  cases h
  assumption

theorem generics (h : d.Uniform winrt) (hwinrt : winrt = true) : d.generics = [] := by
  cases h with
  | intro _ generics _ => exact generics hwinrt

theorem of_find? (h : d.Uniform winrt) (hn : d.find? steps = some n) : n.Uniform winrt := by
  refine of_find?_of_nested (fun d n hd hn => ?_) h hn
  cases hd with
  | intro _ _ inside => exact inside n hn

end Definition.Uniform

theorem Source.uniform_nestedWritten {file : String} {winrt : Bool} {members : List Member}
    (h : ∀ t ∈ structsIn members, Admitted winrt t) :
    ∀ n ∈ nestedWritten file winrt members, n.Uniform winrt := by
  induction members using nestedWritten.induct with
  | case1 => simp [nestedWritten]
  | case2 attributes heading members rest ihInner ihRest =>
    rw [structsIn, List.forall_mem_cons, List.forall_mem_append] at h
    obtain ⟨hadmitted, hinside, hrest⟩ := h
    rw [nestedWritten, List.forall_mem_cons]
    exact ⟨.intro rfl hadmitted.generics (ihInner hinside), ihRest hrest⟩
  | case3 name type rest ih =>
    rw [structsIn] at h
    rw [nestedWritten]
    exact ih h
  | case4 line name type value rest ih =>
    rw [structsIn] at h
    rw [nestedWritten]
    exact ih h

theorem Source.DefinitionSource.Accepted.uniform {file : String} {s : DefinitionSource}
    (h : s.Accepted) : (s.written file).Uniform s.winrt.isSome := by
  obtain ⟨hbody, hinside, -⟩ := DefinitionSource.accepted_iff.1 h
  have hgenerics : s.winrt.isSome = true → (s.written file).generics = [] := by
    intro hwinrt
    unfold written
    cases hsbody : s.body with
    | aggregate heading members => exact (hbody heading members hsbody).generics hwinrt
    | enumeration | bodiless => rfl
  have hmark : (s.written file).winrt = s.winrt.isSome := by
    unfold written
    cases s.body <;> rfl
  exact .intro hmark hgenerics (uniform_nestedWritten fun t ht => (hinside t ht).1)

namespace Registry

open Source

variable {file text : String} {reg : Registry} {document : Document}

/-- What a registry has to do with the source tree that it is read from. -/
structure Lists (file : String) (document : Document) (reg : Registry) : Prop where
  /-- The top-level definitions of the text, in its order, as they are written there. -/
  entries : reg.entries = document.entries file
  /-- Each is listed once. -/
  once : reg.topLevel.Nodup
  /-- It is found by its namespace and its name, and nothing else is. -/
  found : ∀ space name d,
    reg.lookup? space name = some d ↔ (⟨space, d⟩ : Entry) ∈ reg.entries ∧ d.name = name
  /-- What is nested is not listed, and not found by any name. -/
  outside : ∀ p ∈ reg.places, p.isNested = true →
    p ∉ reg.topLevel ∧ (∀ name, p ∉ reg.named name) ∧
      ∀ space name n, reg.lookupName? space name = some n → n.place ≠ p
  /-- What is nested, at every depth, is in the namespace of its outermost definition, and of WinRT
  if that one is; then it has no generic parameters.  Nested side by side, definitions have
  different names. -/
  inside : ∀ e ∈ reg.entries, ∀ p ∈ e.definition.places e.place,
    p.space = e.space ∧ ∃ d, reg.find? p = some d ∧ d.winrt = e.definition.winrt ∧
      (d.winrt = true → d.generics = []) ∧ (d.nested.map (·.name)).Nodup

theorem ofDocument_eq_ok : (ofDocument file document).result = .ok reg ↔
    (∀ s ∈ document.sources, s.2.Accepted) ∧ document.DistinctTop ∧
      reg = ⟨document.entries file⟩ := by
  simp only [ofDocument, Traced.result_bind, Traced.result_tell, Traced.result_pure, bind_eq_ok',
    result_foldlM_enter, foldlM_enter_eq_ok, Except.ok.injEq]
  constructor
  · rintro ⟨_, ⟨haccepted, htop, -, rfl⟩, -, -, rfl⟩
    exact ⟨haccepted, htop, rfl⟩
  · rintro ⟨haccepted, htop, rfl⟩
    exact ⟨_, ⟨haccepted, htop, by simp [topLevel, empty], rfl⟩, (), trivial, rfl⟩

/-- **Texts that are accepted.**  They are those that have a source tree, with arrays of positive
lengths, no generic parameters under WinRT, and no two definitions of one name side by side; and
they declare what is written in them. -/
theorem ofText_eq_ok : (ofText file text).result = .ok reg ↔
    ∃ document, read text.toList = .ok document ∧
      (document.Sized ∧ document.PlainWinrt ∧ document.DistinctNested) ∧ document.DistinctTop ∧
      reg = ⟨document.entries file⟩ := by
  simp only [← Document.accepted_iff, ← ofDocument_eq_ok]
  unfold ofText
  dsimp only
  split
  · rename_i document hread
    simp [hread]
  · rename_i left hread
    simp [hread]

/-- The top-level definitions of a text have words for names, in namespaces of such words. -/
theorem words_of_ofText (h : (ofText file text).result = .ok reg) :
    ∀ e ∈ reg.entries, IsDotted e.space ∧ IsWord e.definition.name := by
  obtain ⟨document, hread, -, -, rfl⟩ := ofText_eq_ok.1 h
  intro e he
  obtain ⟨s, hs, rfl⟩ := List.mem_map.1 he
  have hname : (s.2.written file).name = s.2.body.name := Body.name_written ..
  rw [hname]
  exact words_of_read hread s hs

theorem not_found_of_isNested {p : Place} (hnested : p.isNested = true) :
    p ∉ reg.topLevel ∧ (∀ name, p ∉ reg.named name) ∧
      ∀ space name n, reg.lookupName? space name = some n → n.place ≠ p := by
  refine ⟨fun hp => ?_, fun name hp => ?_, fun space name n hn => ?_⟩
  · obtain ⟨e, -, rfl⟩ := List.mem_map.1 hp
    cases hnested
  · obtain ⟨e, -, rfl⟩ := List.mem_map.1 hp
    cases hnested
  · obtain ⟨d, -, rfl⟩ := Option.map_eq_some_iff.1 hn
    rintro rfl
    cases hnested

/-- **What a registry lists.**  A text that is loaded leaves its top-level definitions, each once and
in its order, with the nested ones inside them.  A text with a source tree, arrays of positive
lengths and no generic parameters under WinRT is rejected if and only if two top-level definitions
have one namespace and name, or two that are nested side by side have one name. -/
theorem ofText_lists (file text : String) :
    (∀ reg, (ofText file text).result = .ok reg →
      ∃ document, read text.toList = .ok document ∧ reg.Lists file document) ∧
    ∀ document : Document, read text.toList = .ok document → document.Sized →
      document.PlainWinrt →
        ((∃ e, (ofText file text).result = .error e) ↔
          ¬ document.DistinctTop ∨ ¬ document.DistinctNested) := by
  constructor
  · intro reg h
    obtain ⟨document, hread, haccepted, -, hentries⟩ := ofText_eq_ok.1 h
    have hreg := wellFormed_of_ofText h
    refine ⟨document, hread, congrArg Registry.entries hentries, hreg.topLevel,
      fun space name d => hreg.lookup?_eq_some_iff,
      fun p _ hnested => not_found_of_isNested hnested, fun e he p hp => ?_⟩
    obtain ⟨steps, d, rfl, hsteps, hd⟩ := hreg.exists_find?_of_mem_places he hp
    refine ⟨rfl, d, hd, ?_⟩
    rw [hentries] at he
    obtain ⟨s, hs, rfl⟩ := List.mem_map.1 he
    have hroot : (s.2.written file).Uniform s.2.winrt.isSome :=
      (Document.accepted_iff.2 haccepted s hs).uniform
    have hinside := hroot.of_find? hsteps
    exact ⟨hinside.mark.trans hroot.mark.symm,
      fun hwinrt => hinside.generics (hinside.mark ▸ hwinrt),
      (hreg.distinct_of_find? hd).names⟩
  · intro document hread hsized hplain
    constructor
    · rintro ⟨e, he⟩
      by_contra hdistinct
      rw [not_or, not_not, not_not] at hdistinct
      have hok : (ofText file text).result = .ok ⟨document.entries file⟩ :=
        ofText_eq_ok.2 ⟨document, hread, ⟨hsized, hplain, hdistinct.2⟩, hdistinct.1, rfl⟩
      rw [he] at hok
      cases hok
    · intro hclash
      cases hresult : (ofText file text).result with
      | error e => exact ⟨e, rfl⟩
      | ok reg =>
        obtain ⟨document', hread', ⟨-, -, hnested⟩, htop, -⟩ := ofText_eq_ok.1 hresult
        cases hread.symm.trans hread'
        exact absurd hclash (by simp [hnested, htop])

end Registry

/-! ### Samples -/

namespace ContentsSample

open Source

/-- A namespace in two blocks, with a definition nested in a nested one. -/
def splitText : String :=
  "namespace N { union A { struct B { struct B { x: u8; } } } } namespace N { winrt class C; }"

def unionWithin : Definition :=
  ⟨"A", .struct, [], [], true, false, [], none, [], some "m", some 1,
    [⟨"B", .struct, [], [], false, false, [], none, [], some "m", some 1,
      [⟨"B", .struct, [⟨"x", .stored (.named "u8"), some 1⟩], [], false, false, [], none, [],
        some "m", some 1, []⟩]⟩]⟩

def splitRegistry : Registry :=
  ⟨[⟨"N", unionWithin⟩, ⟨"N", blank "m" [] true .runtimeClass 1 "C"⟩]⟩

/-- A text with two definitions of one name, in two blocks of one namespace. -/
def twiceText : String := "namespace N { struct A { x: [u8; 2]; } } namespace N { enum A { } }"

def twiceDocument : Document :=
  [⟨1, ⟨⟨1, "N"⟩, []⟩, [⟨[], none, .aggregate ⟨1, false, "A", none⟩
      [.field ⟨1, "x"⟩ (.array 1 (.named ⟨⟨1, "u8"⟩, []⟩) (.int 2))]⟩]⟩,
    ⟨1, ⟨⟨1, "N"⟩, []⟩, [⟨[], none, .enumeration 1 "A" none []⟩]⟩]

/-- The definitions of both blocks are listed, and the text with a name twice is rejected. -/
theorem lists_split :
    (∃ document, read splitText.toList = .ok document ∧ splitRegistry.Lists "m" document) ∧
      ∃ e, (Registry.ofText "m" twiceText).result = .error e := by
  refine ⟨(Registry.ofText_lists "m" splitText).1 splitRegistry (by cbv), ?_⟩
  have hread : read twiceText.toList = .ok twiceDocument := by cbv
  have hsized : twiceDocument.Sized := by
    simp [twiceDocument, Document.Sized, Document.sources, Body.structs, structsIn, Member.Sized,
      TypeSource.Sized, isLength]
  have hplain : twiceDocument.PlainWinrt := by
    simp [twiceDocument, Document.PlainWinrt, Document.sources]
  have hclash : ¬ twiceDocument.DistinctTop := by
    simp [twiceDocument, Document.DistinctTop, Document.sources, topPlace, Body.name]
  exact ((Registry.ofText_lists "m" twiceText).2 twiceDocument hread hsized hplain).2 (.inl hclash)

end ContentsSample

end Bindery
