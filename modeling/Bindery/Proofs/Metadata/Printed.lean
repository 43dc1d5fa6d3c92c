import Bindery.Code.Constant
import Bindery.Proofs.Metadata.Contents
import Bindery.Proofs.Source.Spelling
/-!
# Printing and reading back

Declared types, fields and text constants as they are printed, and a metadata text of one struct that
is put together from them (`namespaceText`).  The text is accepted and declares the struct with these
fields and constants and no others (`Registry.ofText_namespaceText`).  So types that are printed are
read back, however deep they are nested (`Registry.ofText_types`), and text constants are written again
as the literals that they were read from (`Registry.ofText_literal`).
-/

namespace Bindery

/-! ### What can be printed -/

/-- A type of pointers and arrays, nested in any way, around names: the lengths are positive, and the
names are words with dots between them. -/
def TypeExpr.WellSpelled : TypeExpr → Prop
  | named name => Source.IsDottedName name
  | pointer _ element => element.WellSpelled
  | array element length => element.WellSpelled ∧ Source.isLength length

/-- A member of a struct: a field, or a constant that is a text. -/
inductive MemberLine
  | field (name : String) (type : TypeExpr)
  | constant (name type text : String)

namespace MemberLine

def name : MemberLine → String
  | field name _ | constant name _ _ => name

/-- What the member is once it is read. -/
def kind : MemberLine → FieldKind
  | field _ type => .stored type
  | constant _ type text => .literal (some ⟨.text text, type⟩)

def text : MemberLine → String
  | field name type => name ++ ": " ++ type.text ++ ";"
  | constant name type text =>
    "const " ++ name ++ ": " ++ type ++ " = " ++ Text.stringLiteral text ++ ";"

/-- All names are words, and so are those in the type of a field. -/
def WellSpelled : MemberLine → Prop
  | field name type => Source.IsName name ∧ type.WellSpelled
  | constant name type _ => Source.IsName name ∧ Source.IsName type

end MemberLine

def structText (name : String) (lines : List MemberLine) : String :=
  "struct " ++ name ++ " \x7b" ++ String.join (lines.map fun line => " " ++ line.text) ++ " \x7d"

def namespaceText (space name : String) (lines : List MemberLine) : String :=
  "namespace " ++ space ++ " \x7b " ++ structText name lines ++ " \x7d"

namespace Source

open Grammar

variable {blank : List Char}

/-! ### Types -/

theorem spells_pointer (isConst : Bool) (hblank : IsBlank blank) :
    Spells (blank ++ (if isConst then "*const" else "*mut").toList) (terminal .pointer)
      (fun mark => decide (mark.value = "*const") = isConst) anyhow := by
  cases isConst with
  | false =>
    refine ((spells_fixed "*mut" rfl hblank).rule fun _ _ _ h => terminal_pointer_iff.2 (.inl h)).mono
      fun mark hmark => ?_
    rw [hmark]
    rfl
  | true =>
    refine ((spells_fixed "*const" rfl hblank).rule
      fun _ _ _ h => terminal_pointer_iff.2 (.inr h)).mono fun mark hmark => ?_
    rw [hmark]
    rfl

theorem exists_nat_of_isLength {length : Value} (h : isLength length) :
    ∃ n : Nat, length = .int n ∧ length.plain = toString n := by
  cases length with
  | int n =>
    have hpos : 0 < n := of_decide_eq_true h
    obtain ⟨k, rfl⟩ := Int.eq_ofNat_of_zero_le (Int.le_of_lt hpos)
    exact ⟨k, rfl, rfl⟩
  | _ => cases h

theorem spells_type {e : TypeExpr} (he : e.WellSpelled) (hblank : IsBlank blank) :
    Spells (blank ++ e.text.toList) type (fun t => t.written = e ∧ t.Sized) wordEnd := by
  induction e generalizing blank with
  | named name =>
    have hrule : Spells (blank ++ name.toList) (do let n ← dottedName; return .named n)
        (fun t : TypeSource => t.written = .named name ∧ t.Sized) wordEnd :=
      (spells_dottedName he hblank).map fun n hn => ⟨congrArg TypeExpr.named hn, trivial⟩
    refine hrule.rule ?_
    rintro c _ c' ⟨n, _, hn, rfl, rfl⟩
    exact .named hn
  | pointer isConst element ih =>
    have hrule : Spells
        ((blank ++ (if isConst then "*const" else "*mut").toList) ++ ([' '] ++ element.text.toList))
        (do let mark ← terminal .pointer; let element ← type
            return .pointer mark.line (mark.value = "*const") element)
        (fun t : TypeSource => t.written = .pointer isConst element ∧ t.Sized) wordEnd := by
      refine (spells_pointer isConst hblank).andThen fun mark hmark => ?_
      refine (ih he isBlank_space).map fun t ht => ?_
      rw [TypeSource.written, ht.1, hmark]
      exact ⟨rfl, ht.2⟩
    refine (hrule.rule ?_).of_eq ?_
    · rintro c _ c' ⟨mark, c₁, hmark, t, _, ht, rfl, rfl⟩
      exact .pointer hmark ht
    · cases isConst <;> simp [TypeExpr.text]
  | array element length ih =>
    obtain ⟨n, rfl, hplain⟩ := exists_nat_of_isLength he.2
    have hrule : Spells ((blank ++ "[".toList) ++ (([] ++ element.text.toList) ++ (([] ++ ";".toList) ++
          (([' '] ++ (toString n).toList) ++ ([] ++ "]".toList)))))
        (do let mark ← fixed "["; let element ← type; let _ ← fixed ";"; let length ← number
            let _ ← fixed "]"
            return .array mark.line element length.value)
        (fun t : TypeSource => t.written = .array element (.int n) ∧ t.Sized) wordEnd := by
      refine (spells_fixed "[" rfl hblank).andThen fun mark _ => ?_
      refine (ih he.1 isBlank_nil).bind (fun t ht => ?_) fun rest _ => wordEnd_of rfl _
      refine (spells_fixed ";" rfl isBlank_nil).andThen fun _ _ => ?_
      refine (spells_number n isBlank_space).bind (fun length hlength => ?_)
        fun rest _ => ⟨wordEnd_of rfl _, by simp⟩
      refine ((spells_fixed "]" rfl isBlank_nil).map fun _ _ => ?_).ending fun _ _ => trivial
      rw [TypeSource.written, ht.1, hlength]
      exact ⟨rfl, hlength ▸ he.2, ht.2⟩
    refine (hrule.rule ?_).of_eq ?_
    · rintro c _ c' ⟨mark, c₁, hmark, t, c₂, ht, semicolon, c₃, hsemicolon, length, c₄, hlength,
        close, _, hclose, rfl, rfl⟩
      exact .array hmark ht hsemicolon hlength hclose
    · simp [TypeExpr.text, hplain]

/-! ### Members -/

/-- A source member that says what is printed. -/
def Says (line : MemberLine) (m : Member) : Prop :=
  m.Sized ∧ ∃ f, m.written? = some f ∧ f.name = line.name ∧ f.kind = line.kind

theorem spells_field {name : String} {e : TypeExpr} (hname : IsName name) (he : e.WellSpelled)
    (hblank : IsBlank blank) :
    Spells (blank ++ (MemberLine.field name e).text.toList) field (Says (.field name e)) anyhow := by
  have hrule : Spells ((blank ++ name.toList) ++ (([] ++ ":".toList) ++
      (([' '] ++ e.text.toList) ++ ([] ++ ";".toList)))) field (Says (.field name e)) anyhow := by
    refine (spells_name hname hblank).bind (fun token htoken => ?_) fun rest _ => wordEnd_of rfl _
    refine (spells_fixed ":" rfl isBlank_nil).andThen fun _ _ => ?_
    refine (spells_type he isBlank_space).bind (fun t ht => ?_) fun rest _ => wordEnd_of rfl _
    exact (spells_fixed ";" rfl isBlank_nil).map fun _ _ =>
      ⟨ht.2, _, rfl, htoken, congrArg FieldKind.stored ht.1⟩
  refine hrule.of_eq ?_
  simp [MemberLine.text]

theorem spells_constant {name typeName : String} (hname : IsName name) (htype : IsName typeName)
    (text : String) (hblank : IsBlank blank) :
    Spells (blank ++ (MemberLine.constant name typeName text).text.toList) constant
      (Says (.constant name typeName text)) anyhow := by
  have hrule : Spells ((blank ++ "const".toList) ++ (([' '] ++ name.toList) ++ (([] ++ ":".toList) ++
      (([' '] ++ typeName.toList) ++ (([' '] ++ "=".toList) ++
        (([' '] ++ (Text.stringLiteral text).toList) ++ ([] ++ ";".toList)))))))
      constant (Says (.constant name typeName text)) anyhow := by
    refine (spells_fixed "const" rfl hblank).andThen fun keyword _ => ?_
    refine (spells_nameText hname isBlank_space).bind (fun word hword => ?_)
      fun rest _ => wordEnd_of rfl _
    refine (spells_fixed ":" rfl isBlank_nil).andThen fun _ _ => ?_
    refine (spells_nameText htype isBlank_space).bind (fun type' htype' => ?_)
      fun rest _ => wordEnd_of rfl _
    refine (spells_fixed "=" rfl isBlank_space).andThen fun _ _ => ?_
    refine (spells_string text isBlank_space).orLeft.andThen fun value hvalue => ?_
    refine (spells_fixed ";" rfl isBlank_nil).map fun _ _ => ⟨trivial, _, rfl, hword, ?_⟩
    rw [hvalue, htype']
    rfl
  refine hrule.of_eq ?_
  simp [MemberLine.text]

theorem spells_member {line : MemberLine} (hline : line.WellSpelled) (hblank : IsBlank blank) :
    Spells (blank ++ line.text.toList) member (Says line) anyhow := by
  cases line with
  | field name e => exact (spells_field hline.1 hline.2 hblank).rule fun _ _ _ => .field
  | constant name typeName text =>
    exact (spells_constant hline.1 hline.2 text hblank).rule fun _ _ _ => .constant

/-! ### Structs -/

variable {space name : String} {lines : List MemberLine}

/-- A source definition that says what is printed. -/
def SaysStruct (name : String) (lines : List MemberLine) (d : DefinitionSource) : Prop :=
  ∃ heading ms, d = ⟨[], none, .aggregate heading ms⟩ ∧ heading.name = name ∧
    heading.isUnion = false ∧ heading.generics = none ∧ List.Forall₂ Says lines ms

theorem spells_heading (hname : IsName name) (hblank : IsBlank blank) :
    Spells (blank ++ "struct ".toList ++ name.toList) heading
      (fun h => h.name = name ∧ h.isUnion = false ∧ h.generics = none) wordEnd := by
  have hkeyword : Spells (blank ++ "struct".toList)
      (do return ((← fixed "struct").line, false)) (fun k : Nat × Bool => k.2 = false) anyhow :=
    (spells_fixed "struct" rfl hblank).map fun _ _ => rfl
  have hrule : Spells ((blank ++ "struct".toList) ++ (([' '] ++ name.toList) ++ [])) heading
      (fun h => h.name = name ∧ h.isUnion = false ∧ h.generics = none) wordEnd := by
    refine hkeyword.orLeft.andThen fun k hk => ?_
    refine (spells_nameText hname isBlank_space).bind (fun word hword => ?_) fun rest hend => hend
    exact (Spells.none.map fun g hg => ⟨hword, hk, hg⟩).ending fun _ _ => trivial
  refine hrule.of_eq ?_
  simp

theorem spells_aggregate (hname : IsName name) (hlines : ∀ line ∈ lines, line.WellSpelled)
    (hblank : IsBlank blank) :
    Spells (blank ++ (structText name lines).toList) aggregate
      (fun b => ∃ heading ms, b = .aggregate heading ms ∧ heading.name = name ∧
        heading.isUnion = false ∧ heading.generics = none ∧ List.Forall₂ Says lines ms) anyhow := by
  have hmembers : Spells (([' '] ++ "\x7b".toList) ++
      ((lines.flatMap fun line => [' '] ++ line.text.toList) ++ ([' '] ++ "\x7d".toList)))
      members (List.Forall₂ Says lines) anyhow := by
    refine (spells_fixed "\x7b" rfl isBlank_space).andThen fun _ _ => ?_
    refine (Spells.many (fun line hline => spells_member (hlines line hline) isBlank_space)
      fun _ _ _ => trivial).andThen fun ms hms => ?_
    exact (spells_fixed "\x7d" rfl isBlank_space).map fun _ _ => hms
  have hrule : Spells ((blank ++ "struct ".toList ++ name.toList) ++ (([' '] ++ "\x7b".toList) ++
      ((lines.flatMap fun line => [' '] ++ line.text.toList) ++ ([' '] ++ "\x7d".toList))))
      aggregate (fun b => ∃ heading ms, b = .aggregate heading ms ∧ heading.name = name ∧
        heading.isUnion = false ∧ heading.generics = none ∧ List.Forall₂ Says lines ms) anyhow := by
    refine (spells_heading hname hblank).bind (fun h hh => ?_) fun rest _ => wordEnd_of rfl _
    exact hmembers.map fun ms hms => ⟨h, ms, rfl, hh.1, hh.2.1, hh.2.2, hms⟩
  refine hrule.of_eq ?_
  simp [structText, String.toList_join, List.flatMap_map]

theorem spells_struct (hname : IsName name) (hlines : ∀ line ∈ lines, line.WellSpelled)
    (hblank : IsBlank blank) :
    Spells (blank ++ (structText name lines).toList) definition (SaysStruct name lines) anyhow := by
  have hrule : Spells ([] ++ ([] ++ (blank ++ (structText name lines).toList))) definition
      (SaysStruct name lines) anyhow := by
    refine Spells.manyNone.andThen fun attributes hattributes => ?_
    refine Spells.none.andThen fun winrt hwinrt => ?_
    refine (spells_aggregate hname hlines hblank).orLeft.map fun b hb => ?_
    obtain ⟨heading, ms, rfl, hsays⟩ := hb
    exact ⟨heading, ms, by rw [hattributes, hwinrt]; rfl, hsays⟩
  exact hrule

theorem spells_namespace (hspace : IsDottedName space) (hname : IsName name)
    (hlines : ∀ line ∈ lines, line.WellSpelled) :
    Spells (namespaceText space name lines).toList namespaceBlock
      (fun b => b.name.text = space ∧ ∃ d, b.definitions = [d] ∧ SaysStruct name lines d)
      anyhow := by
  have hdefinitions : Spells ([' '] ++ (structText name lines).toList) (Many definition)
      (fun ds => ∃ d, ds = [d] ∧ SaysStruct name lines d) anyhow := by
    intro c rest hc hend
    obtain ⟨d, c', hd, hsays, hc'⟩ := spells_struct hname hlines isBlank_space c rest hc hend
    exact ⟨[d], c', .cons hd .nil, ⟨d, rfl, hsays⟩, hc'⟩
  have hrule : Spells (([] ++ "namespace".toList) ++ (([' '] ++ space.toList) ++
      (([' '] ++ "\x7b".toList) ++ (([' '] ++ (structText name lines).toList) ++
        ([' '] ++ "\x7d".toList))))) namespaceBlock
      (fun b => b.name.text = space ∧ ∃ d, b.definitions = [d] ∧ SaysStruct name lines d)
      anyhow := by
    refine (spells_fixed "namespace" rfl isBlank_nil).andThen fun keyword _ => ?_
    refine (spells_dottedName hspace isBlank_space).bind (fun n hn => ?_)
      fun rest _ => wordEnd_of rfl _
    refine (spells_fixed "\x7b" rfl isBlank_space).andThen fun _ _ => ?_
    refine hdefinitions.andThen fun ds hds => ?_
    exact (spells_fixed "\x7d" rfl isBlank_space).map fun _ _ => ⟨hn, hds⟩
  refine hrule.of_eq ?_
  simp [namespaceText]

/-- The printed text is read as what it says. -/
theorem exists_read_namespaceText (hspace : IsDottedName space) (hname : IsName name)
    (hlines : ∀ line ∈ lines, line.WellSpelled) :
    ∃ b d, read (namespaceText space name lines).toList = .ok [b] ∧ b.name.text = space ∧
      b.definitions = [d] ∧ SaysStruct name lines d := by
  obtain ⟨b, c, hb, ⟨hn, d, hds, hd⟩, hc⟩ := spells_namespace hspace hname hlines ⟨1, _⟩ []
    (List.append_nil _).symm trivial
  exact ⟨b, d, read_eq_ok_iff.2 ⟨c, c, .cons hb .nil, .refl, hc⟩, hn, hds, hd⟩

/-! ### What the text declares -/

theorem nothing_nested {ms : List Member} (h : List.Forall₂ Says lines ms) :
    structsIn ms = [] ∧ nestedNames ms = [] ∧ ∀ file winrt, nestedWritten file winrt ms = [] := by
  induction h with
  | nil => simp [structsIn, nestedNames, nestedWritten]
  | @cons line m lines ms hm _ ih =>
    obtain ⟨-, f, hwritten, -⟩ := hm
    cases m with
    | field | constant => simpa [structsIn, nestedNames, Member.nestedName?, nestedWritten] using ih
    | nested => cases hwritten

theorem map_fieldsWritten {ms : List Member} (h : List.Forall₂ Says lines ms) :
    (fieldsWritten ms).map (fun f => (f.name, f.kind)) = lines.map fun l => (l.name, l.kind) := by
  induction h with
  | nil => rfl
  | @cons line m lines ms hm _ ih =>
    obtain ⟨-, f, hwritten, hname, hkind⟩ := hm
    have hcons : fieldsWritten (m :: ms) = f :: fieldsWritten ms :=
      List.filterMap_cons_some hwritten
    rw [hcons, List.map_cons, List.map_cons, hname, hkind, ih]

theorem SaysStruct.accepted {d : DefinitionSource} (h : SaysStruct name lines d) : d.Accepted := by
  obtain ⟨heading, ms, rfl, -, -, -, hms⟩ := h
  obtain ⟨hstructs, hnames, -⟩ := nothing_nested hms
  have hsized : ∀ m ∈ ms, m.Sized := by
    intro m hm
    obtain ⟨line, -, hline⟩ := exists_of_mem_right hms hm
    exact hline.1
  intro t ht
  rw [Body.structs, hstructs, List.mem_singleton] at ht
  subst ht
  exact ⟨⟨fun hwinrt => absurd hwinrt Bool.false_ne_true, hsized⟩, hnames ▸ .nil⟩

end Source

namespace Registry

open Source

variable {file space name : String} {lines : List MemberLine}

theorem lookup?_singleton {d : Definition} (h : d.name = name) :
    lookup? ⟨[⟨space, d⟩]⟩ space name = some d := by
  simp [lookup?, h]

/-- **Printed structs.**  The text of a struct with fields and text constants is accepted.  It declares
the struct and nothing else, with these fields and constants in their order. -/
theorem ofText_namespaceText (file : String) (hspace : IsDottedName space) (hname : IsName name)
    (hlines : ∀ line ∈ lines, line.WellSpelled) :
    ∃ d, (ofText file (namespaceText space name lines)).result = .ok ⟨[⟨space, d⟩]⟩ ∧
      d.name = name ∧ d.category = .struct ∧ d.explicitLayout = false ∧ d.nested = [] ∧
      d.fields.map (fun f => (f.name, f.kind)) = lines.map fun l => (l.name, l.kind) := by
  obtain ⟨b, s, hread, rfl, hdefinitions, hs⟩ := exists_read_namespaceText hspace hname hlines
  have haccepted := hs.accepted
  obtain ⟨heading, ms, rfl, rfl, hunion, -, hms⟩ := hs
  have hsources : Document.sources [b] =
      [(b.name.text, ⟨[], none, .aggregate heading ms⟩)] := by
    simp [Document.sources, hdefinitions]
  refine ⟨DefinitionSource.written file ⟨[], none, .aggregate heading ms⟩,
    ofText_eq_ok.2 ⟨[b], hread, ?_, ?_, ?_⟩, rfl, rfl, hunion, (nothing_nested hms).2.2 _ _,
    map_fieldsWritten hms⟩
  · rw [← Document.accepted_iff, hsources]
    exact List.forall_mem_singleton.2 haccepted
  · rw [Document.DistinctTop, hsources]
    exact List.nodup_singleton _
  · rw [Document.entries, hsources]
    rfl

/-- **Types are read back.**  A struct with fields that have printed types is loaded, and each field
has the type that was printed: the same pointers, lengths and names at every level. -/
theorem ofText_types (file : String) (hspace : IsDottedName space) (hname : IsName name)
    {fields : List (String × TypeExpr)} (hfields : ∀ f ∈ fields, IsName f.1 ∧ f.2.WellSpelled) :
    ∃ reg d,
      (ofText file (namespaceText space name (fields.map fun f => .field f.1 f.2))).result = .ok reg ∧
      reg.lookup? space name = some d ∧
      d.fields.map (fun f => (f.name, f.kind)) = fields.map fun f => (f.1, .stored f.2) := by
  have hlines : ∀ line ∈ fields.map fun f => MemberLine.field f.1 f.2, line.WellSpelled :=
    List.forall_mem_map.2 hfields
  obtain ⟨d, hresult, hd, -, -, -, hread⟩ := ofText_namespaceText file hspace hname hlines
  refine ⟨_, d, hresult, lookup?_singleton hd, ?_⟩
  rw [hread, List.map_map]
  rfl

/-- **Literals are read back.**  The literal of a text is a string in full and stands for the text;
so a text constant that is loaded is written as the literal that it was loaded from.  Of every
string, the value is what one pass from left to right makes of its inside. -/
theorem ofText_literal :
    (∀ text, Pattern.string.match? (Text.stringLiteral text).toList =
        some ((Text.stringLiteral text).toList, []) ∧
      stringValue (Text.stringLiteral text).toList = .text text) ∧
    (∀ file space name constant text, IsDottedName space → IsName name → IsName constant →
      ∃ reg d f,
        (ofText file (namespaceText space name [.constant constant "string" text])).result = .ok reg ∧
        reg.lookup? space name = some d ∧ d.fields = [f] ∧ f.name = constant ∧
        f.kind = .literal (some ⟨.text text, "string"⟩) ∧
        Constant.code ⟨.text text, "string"⟩ =
          .ok ("&'static str = " ++ Text.stringLiteral text)) ∧
    ∀ cs taken rest, Pattern.string.match? cs = some (taken, rest) →
      ∃ body, taken = '\x22' :: (body ++ ['\x22']) ∧
        stringValue taken = .text (.ofList (Text.decodeLiteral body)) ∧
        Text.decodeLiteral body = unescape body := by
  refine ⟨fun text => ⟨?_, stringValue_stringLiteral text⟩, ?_, fun cs taken rest h => ?_⟩
  · have hmatch := match?_stringLiteral text []
    rwa [List.append_nil] at hmatch
  · intro file space name constant text hspace hname hconstant
    have hlines : ∀ line ∈ [MemberLine.constant constant "string" text], line.WellSpelled :=
      List.forall_mem_singleton.2 ⟨hconstant, by decide⟩
    obtain ⟨d, hresult, hd, -, -, -, hread⟩ := ofText_namespaceText file hspace hname hlines
    obtain ⟨f, hfields, hf⟩ := List.map_eq_singleton_iff.1 hread
    obtain ⟨hfield, hkind⟩ := Prod.mk.inj hf
    exact ⟨_, d, f, hresult, lookup?_singleton hd, hfields, hfield, hkind, rfl⟩
  · exact stringValue_of_match? h

end Registry

/-! ### Samples -/

namespace PrintedSample

open Source

/-- A type that names keywords, and that is read though it cannot be resolved. -/
def type : TypeExpr :=
  .pointer true (.array (.pointer false (.named "const.struct")) (.int 12))

theorem wellSpelled_type : type.WellSpelled :=
  ⟨⟨"const", ["struct"], by decide, rfl⟩, rfl⟩

/-- The type is read back. -/
theorem ofText_type : ∃ reg d, (Registry.ofText "m"
      "namespace N \x7b struct A \x7b union: *const [*mut const.struct; 12]; \x7d \x7d").result =
        .ok reg ∧
    reg.lookup? "N" "A" = some d ∧
    d.fields.map (fun f => (f.name, f.kind)) = [("union", .stored type)] := by
  have hspace : IsDottedName "N" := IsName.isDottedName (by decide)
  have hname : IsName "A" := by decide
  have hfields : ∀ f ∈ [("union", type)], IsName f.1 ∧ f.2.WellSpelled :=
    List.forall_mem_singleton.2 ⟨by decide, wellSpelled_type⟩
  obtain ⟨reg, d, hresult, hrest⟩ := Registry.ofText_types "m" hspace hname hfields
  exact ⟨reg, d, hresult, hrest⟩

/-- A text with a quote and a backslash in it. -/
def quoted : String := "a\"\\"

/-- A string with an escaped backslash before a letter, and a backslash that escapes nothing. -/
def escaped : List Char := "\"\\\\n\\t\\\"\"".toList

/-- The text is loaded from its literal, and the escapes of the string are resolved in one pass. -/
theorem ofText_quoted :
    (∃ reg d f, (Registry.ofText "m"
        "namespace N \x7b struct A \x7b const K: string = \"a\\\"\\\\\"; \x7d \x7d").result = .ok reg ∧
      reg.lookup? "N" "A" = some d ∧ d.fields = [f] ∧
      f.kind = .literal (some ⟨.text quoted, "string"⟩)) ∧
    stringValue escaped = .text "\\n\\t\"" := by
  obtain ⟨-, hload, hdecode⟩ := Registry.ofText_literal
  have hspace : IsDottedName "N" := IsName.isDottedName (by decide)
  obtain ⟨reg, d, f, hresult, hd, hfields, -, hkind, -⟩ :=
    hload "m" "N" "A" "K" quoted hspace (by decide) (by decide)
  refine ⟨⟨reg, d, f, hresult, hd, hfields, hkind⟩, ?_⟩
  have hmatch : Pattern.string.match? escaped = some (escaped, []) := by
    rw [Pattern.match?_string]
    rfl
  obtain ⟨body, hbody, hvalue, hunescape⟩ := hdecode _ _ _ hmatch
  have heq : body ++ ['\x22'] = "\\\\n\\t\\\"".toList ++ ['\x22'] := (List.cons.inj hbody).2.symm
  rw [hvalue, hunescape, List.append_cancel_right heq]
  rfl

end PrintedSample

end Bindery
