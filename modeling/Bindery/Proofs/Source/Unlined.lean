import Bindery.Proofs.Source.Exact
import Bindery.Proofs.Source.Follows
/-!
# Trees without lines

What a tree says apart from the lines on which its parts stand (`NamespaceSource.unlined` and those of
the parts).  Rule by rule, the rules of the grammar follow their right sides, and of the same words
they derive the same trees up to lines (`follows_document`).
-/

namespace Bindery.Source

/-! ### Trees -/

def Located.unlined {α : Type} (x : Located α) : Located α := ⟨0, x.value⟩

def DottedName.unlined (n : DottedName) : DottedName := ⟨n.first.unlined, n.others⟩

def AttributeSource.unlined (a : AttributeSource) : AttributeSource :=
  ⟨0, a.name, a.args.map fun args => ⟨0, args.value.map Located.unlined⟩⟩

def TypeSource.unlined : TypeSource → TypeSource
  | named name => .named name.unlined
  | pointer _ isConst element => .pointer 0 isConst element.unlined
  | array _ element length => .array 0 element.unlined length

def Heading.unlined (h : Heading) : Heading :=
  ⟨0, h.isUnion, h.name, h.generics.map Located.unlined⟩

mutual

def Member.unlined : Member → Member
  | field name type => .field name.unlined type.unlined
  | constant _ name type value => .constant 0 name type value.unlined
  | nested attributes heading members =>
    .nested (attributes.map AttributeSource.unlined) heading.unlined (Member.unlinedAll members)

def Member.unlinedAll : List Member → List Member
  | [] => []
  | m :: ms => m.unlined :: Member.unlinedAll ms

end

theorem Member.unlinedAll_eq_map (ms : List Member) : Member.unlinedAll ms = ms.map Member.unlined := by
  induction ms with
  | nil => rfl
  | cons m ms ih => rw [unlinedAll, ih, List.map_cons]

@[simp] theorem Member.unlined_nested (attributes : List AttributeSource) (heading : Heading)
    (members : List Member) : (nested attributes heading members).unlined =
      .nested (attributes.map AttributeSource.unlined) heading.unlined
        (members.map Member.unlined) := by
  rw [unlined, unlinedAll_eq_map]

def EnumItem.unlined (e : EnumItem) : EnumItem := ⟨e.name.unlined, e.number⟩

def Body.unlined : Body → Body
  | aggregate heading members => .aggregate heading.unlined (members.map Member.unlined)
  | enumeration _ name underlying items => .enumeration 0 name underlying (items.map EnumItem.unlined)
  | bodiless kind _ name => .bodiless kind 0 name

def DefinitionSource.unlined (d : DefinitionSource) : DefinitionSource :=
  ⟨d.attributes.map AttributeSource.unlined, d.winrt.map fun _ => 0, d.body.unlined⟩

def NamespaceSource.unlined (n : NamespaceSource) : NamespaceSource :=
  ⟨0, n.name.unlined, n.definitions.map DefinitionSource.unlined⟩

theorem Located.unlined_congr {α : Type} {x y : Located α} (h : x.value = y.value) :
    x.unlined = y.unlined := by
  rw [unlined, h, ← unlined]

/-! ### Names and literals -/

open Grammar

variable {n : Nat}

theorem follows_fixed (text : String) (ht : (Terminal.fixed text).opens) :
    Follows n (.mark text) (fixed text) (fixed text) (·.value) :=
  .terminal n ht

theorem follows_name : Follows n .name name name (·.value) := .terminal n (t := .name) rfl

theorem follows_nameText : Follows n .name nameText nameText id := follows_name.map fun _ _ h => h

theorem follows_number : Follows n .number number number (·.value) :=
  (Follows.terminal n (t := .number) rfl).map fun _ _ h => congrArg (fun s : String => numberValue s.toList) h

theorem follows_string : Follows n .string string string (·.value) :=
  (Follows.terminal n (t := .string) rfl).map fun _ _ h => congrArg (fun s : String => stringValue s.toList) h

section Marks

variable {α β : Type} {p : Phrase} {R R' : Rule α} {view : α → β} (mark : String)
  (ht : (Terminal.fixed mark).opens)

include ht

theorem Follows.behind (h : Follows n p R R' view) :
    Follows n (.seq (.mark mark) p) (behind mark R) (behind mark R') view :=
  (follows_fixed mark ht).bind fun _ _ _ => h

theorem follows_closing {a a' : α} (h : view a = view a') :
    Follows n (.mark mark) (do let _ ← fixed mark; return a) (do let _ ← fixed mark; return a') view :=
  (follows_fixed mark ht).map fun _ _ _ => h

end Marks

theorem follows_dottedName :
    Follows n (.rule .dottedName) dottedName dottedName DottedName.unlined := by
  refine .rule (follows_name.bind fun first first' hfirst => ?_)
  refine (follows_nameText.behind "." rfl).many.map fun others others' hothers => ?_
  rw [List.map_id, List.map_id] at hothers
  rw [DottedName.unlined, DottedName.unlined, Located.unlined_congr hfirst, hothers]

/-! ### Attributes -/

theorem follows_argument : Follows n (.rule .argument) argument argument Located.unlined :=
  .rule <| (follows_string.map fun _ _ h => by simp [Located.unlined, h]).or <|
    (follows_number.map fun _ _ h => by simp [Located.unlined, h]).or <|
      follows_name.map fun _ _ h => by simp [Located.unlined, h]

theorem follows_arguments : Follows n (.rule .arguments) arguments arguments
    fun args => args.value.map Located.unlined := by
  refine .rule ((follows_fixed "(" rfl).bind fun mark mark' _ => ?_)
  refine (Follows.orPure ?_).bind fun args args' hargs => follows_closing ")" rfl hargs
  refine follows_argument.bind fun first first' hfirst => ?_
  refine (follows_argument.behind "," rfl).many.map fun others others' hothers => ?_
  rw [List.map_cons, List.map_cons, hfirst, hothers]

theorem follows_attributeBlock :
    Follows n (.rule .attribute) attributeBlock attributeBlock AttributeSource.unlined := by
  refine .rule ((follows_fixed "[" rfl).bind fun mark mark' _ => ?_)
  refine follows_nameText.bind fun name name' hname => ?_
  refine follows_arguments.optional.bind fun args args' hargs => follows_closing "]" rfl ?_
  cases args <;> cases args' <;> simp_all [AttributeSource.unlined]

/-! ### Types -/

theorem follows_pointer : Follows n (.alt (.mark "*mut") (.mark "*const")) (terminal .pointer)
    (terminal .pointer) (·.value) :=
  ((follows_fixed "*mut" rfl).or (follows_fixed "*const" rfl)).of_iff
    (fun _ _ _ => terminal_pointer_iff) fun _ _ _ => terminal_pointer_iff

theorem type_iff {c c' : Cursor} {t : TypeSource} : type c t c' ↔
    Rule.or (do let mark ← terminal .pointer; let element ← type
                return .pointer mark.line (mark.value = "*const") element)
      (.or (do let mark ← fixed "["; let element ← type; let _ ← fixed ";"; let length ← number
               let _ ← fixed "]"
               return .array mark.line element length.value)
        (do let name ← dottedName; return .named name)) c t c' := by
  constructor
  · rintro (⟨hmark, helement⟩ | ⟨hmark, helement, hsemicolon, hlength, hclose⟩ | hname)
    · exact .inl ⟨_, _, hmark, _, _, helement, rfl, rfl⟩
    · exact .inr (.inl
        ⟨_, _, hmark, _, _, helement, _, _, hsemicolon, _, _, hlength, _, _, hclose, rfl, rfl⟩)
    · exact .inr (.inr ⟨_, _, hname, rfl, rfl⟩)
  · rintro (⟨_, _, hmark, _, _, helement, rfl, rfl⟩ |
      ⟨_, _, hmark, _, _, helement, _, _, hsemicolon, _, _, hlength, _, _, hclose, rfl, rfl⟩ |
      ⟨_, _, hname, rfl, rfl⟩)
    · exact .pointer hmark helement
    · exact .array hmark helement hsemicolon hlength hclose
    · exact .named hname

theorem length_of_mark {text : String} {us : List Word} (h : (Phrase.mark text).Yields us) :
    0 < us.length := by
  obtain ⟨_, rfl⟩ := Phrase.yields_terminal.1 h
  exact Nat.zero_lt_one

/-- A pointer or an array leaves less room for the type of its element. -/
theorem follows_type (n : Nat) : Follows n (.rule .type) type type TypeSource.unlined := by
  induction n with
  | zero => exact .zero
  | succ n ih =>
    refine .rule (.of_iff (.or (.rule ?_) (.or (.rule ?_) (.rule ?_))) (fun _ _ _ => type_iff)
      fun _ _ _ => type_iff)
    · refine follows_pointer.bind_lt (fun us h => ?_) fun mark mark' hmark => ?_
      · exact (Phrase.yields_alt.1 h).elim length_of_mark length_of_mark
      · refine ih.map fun element element' helement => ?_
        rw [TypeSource.unlined, TypeSource.unlined, hmark, helement]
    · refine (follows_fixed "[" rfl).bind_lt (fun _ => length_of_mark) fun mark mark' _ => ?_
      refine ih.bind fun element element' helement => .behind ";" rfl ?_
      refine follows_number.bind fun length length' hlength => follows_closing "]" rfl ?_
      rw [TypeSource.unlined, TypeSource.unlined, helement, hlength]
    · exact follows_dottedName.map fun name name' hname => congrArg TypeSource.named hname

/-! ### Structs and unions -/

theorem follows_generics : Follows n (.rule .generics) generics generics Located.unlined := by
  refine .rule ((follows_fixed "<" rfl).bind fun mark mark' _ => ?_)
  refine follows_nameText.bind fun first first' hfirst => ?_
  refine (follows_nameText.behind "," rfl).many.bind fun others others' hothers => ?_
  refine follows_closing ">" rfl (Located.unlined_congr ?_)
  rw [List.map_id, List.map_id] at hothers
  exact congrArg₂ List.cons hfirst hothers

/-- The right side of a heading. -/
def headingPhrase : Phrase :=
  .seq (.alt (.mark "struct") (.mark "union")) (.seq .name (.optional (.rule .generics)))

theorem follows_heading : Follows n headingPhrase heading heading Heading.unlined := by
  have hkeyword (keyword : String) (hopens : (Terminal.fixed keyword).opens) (isUnion : Bool) :
      Follows n (.mark keyword) (do return ((← fixed keyword).line, isUnion))
        (do return ((← fixed keyword).line, isUnion)) Prod.snd :=
    (follows_fixed keyword hopens).map fun _ _ _ => rfl
  refine ((hkeyword "struct" rfl false).or (hkeyword "union" rfl true)).bind ?_
  rintro ⟨line, isUnion⟩ ⟨line', isUnion'⟩ rfl
  refine follows_nameText.bind fun _ _ hname => follows_generics.optional.map fun _ _ hgenerics => ?_
  rw [Heading.unlined, Heading.unlined, hgenerics]
  exact congrArg (fun name => (⟨0, isUnion, name, _⟩ : Heading)) hname

/-- The right side of the members in their brackets. -/
def membersPhrase : Phrase := .seq (.mark "\x7b") (.seq (.many (.rule .member)) (.mark "\x7d"))

/-- A struct or a union is a heading with members. -/
theorem alike_aggregate :
    (Phrase.alt (.rule .structDef) (.rule .unionDef)).Alike (.seq headingPhrase membersPhrase) := by
  intro ws
  rw [Phrase.yields_alt, Phrase.yields_rule, Phrase.yields_rule, ← Phrase.yields_alt]
  exact Phrase.alike_factor _ _ _ _ _ ws

section Members

variable (hmember : Follows n (.rule .member) member member Member.unlined)

include hmember

theorem follows_members :
    Follows (n + 1) membersPhrase members members (List.map Member.unlined) := by
  refine (follows_fixed "\x7b" rfl).bind_lt (fun _ => length_of_mark) fun mark mark' _ => ?_
  exact hmember.many.bind fun ms ms' hmembers => follows_closing "\x7d" rfl hmembers

theorem follows_headed {α β : Type} {view : α → β} {f f' : Heading → List Member → α}
    (hf : ∀ h h' ms ms', h.unlined = h'.unlined → ms.map Member.unlined = ms'.map Member.unlined →
      view (f h ms) = view (f' h' ms')) :
    Follows (n + 1) (.alt (.rule .structDef) (.rule .unionDef))
      (do let h ← heading; let ms ← members; return f h ms)
      (do let h ← heading; let ms ← members; return f' h ms) view := by
  refine .of_alike (follows_heading.bind fun h h' hheading => ?_) alike_aggregate
  exact (follows_members hmember).map fun ms ms' hmembers => hf h h' ms ms' hheading hmembers

end Members

theorem follows_field : Follows n (.rule .field) field field Member.unlined := by
  refine .rule (follows_name.bind fun name name' hname => .behind ":" rfl ?_)
  refine (follows_type n).bind fun type type' htype => follows_closing ";" rfl ?_
  rw [Member.unlined, Member.unlined, Located.unlined_congr hname, htype]

theorem follows_literal : Follows n (.rule .literal) literal literal (·.value) :=
  .rule <| follows_string.or follows_number

theorem follows_constant : Follows n (.rule .constant) constant constant Member.unlined := by
  refine .rule ((follows_fixed "const" rfl).bind fun mark mark' _ => ?_)
  refine follows_nameText.bind fun name name' hname => .behind ":" rfl ?_
  refine follows_nameText.bind fun type type' htype => .behind "=" rfl ?_
  refine follows_literal.bind fun value value' hvalue => follows_closing ";" rfl ?_
  obtain rfl : name = name' := hname
  obtain rfl : type = type' := htype
  rw [Member.unlined, Member.unlined, Located.unlined_congr hvalue]

/-- A nested definition leaves less room for its members. -/
theorem follows_member (n : Nat) : Follows n (.rule .member) member member Member.unlined := by
  induction n with
  | zero => exact .zero
  | succ n ih =>
    refine .rule (.of_iff (follows_field.or (follows_constant.or (.rule ?_)))
      (fun _ _ _ => member_iff) fun _ _ _ => member_iff)
    refine follows_attributeBlock.many.bind fun attributes attributes' hattributes => ?_
    refine follows_headed ih fun h h' ms ms' hheading hmembers => ?_
    rw [Member.unlined_nested, Member.unlined_nested, hattributes, hheading, hmembers]

/-! ### The other definitions -/

theorem follows_aggregate : Follows n (.alt (.rule .structDef) (.rule .unionDef)) aggregate aggregate
    Body.unlined := by
  cases n with
  | zero => exact .zero
  | succ n =>
    refine follows_headed (follows_member n) fun h h' ms ms' hheading hmembers => ?_
    rw [Body.unlined, Body.unlined, hheading, hmembers]

theorem follows_enumItem : Follows n (.rule .enumItem) enumItem enumItem EnumItem.unlined := by
  have hnumber : Follows n (.seq (.mark "=") .number)
      (do let _ ← fixed "="; let number ← number; return number.value)
      (do let _ ← fixed "="; let number ← number; return number.value) id :=
    .behind "=" rfl (follows_number.map fun number number' h => h)
  refine .rule (follows_name.bind fun name name' hname => ?_)
  refine hnumber.optional.map fun number number' h => ?_
  obtain rfl : number = number' := by simpa using h
  rw [EnumItem.unlined, EnumItem.unlined, Located.unlined_congr hname]

theorem follows_enumItems : Follows n (.inOrder (.rule .enumItem)
    [.manyAfter "," (.rule .enumItem), .optional (.mark ",")]) enumItems enumItems
      (List.map EnumItem.unlined) := by
  refine follows_enumItem.bind fun first first' hfirst => ?_
  refine (follows_enumItem.behind "," rfl).many.bind fun others others' hothers => ?_
  refine (follows_fixed "," rfl).optional.map fun comma comma' _ => ?_
  rw [List.map_cons, List.map_cons, hfirst, hothers]

theorem follows_enumeration : Follows n (.rule .enumDef) enumeration enumeration Body.unlined := by
  refine .rule ((follows_fixed "enum" rfl).bind fun mark mark' _ => ?_)
  refine follows_nameText.bind fun name name' hname => ?_
  refine (follows_nameText.behind ":" rfl).optional.bind fun underlying underlying' hunderlying => ?_
  refine .behind "\x7b" rfl ?_
  refine follows_enumItems.orPure.bind fun items items' hitems => follows_closing "\x7d" rfl ?_
  obtain rfl : name = name' := hname
  obtain rfl : underlying = underlying' := by simpa using hunderlying
  rw [Body.unlined, Body.unlined, hitems]

theorem follows_bodiless (kind : Bodiless) : Follows n (.bodiless kind.keyword) (bodiless kind)
    (bodiless kind) Body.unlined := by
  refine (follows_fixed kind.keyword (by cases kind <;> rfl)).bind fun mark mark' _ => ?_
  refine follows_nameText.bind fun name name' hname => follows_closing ";" rfl ?_
  exact congrArg (Body.bodiless kind 0) hname

theorem follows_body : Follows n (.oneOf (.rule .structDef) [.rule .unionDef, .rule .enumDef,
    .rule .delegateDef, .rule .interfaceDef, .rule .classDef]) body body Body.unlined :=
  (follows_aggregate.or <| follows_enumeration.or <| (follows_bodiless .delegate).rule.or <|
    (follows_bodiless .interface).rule.or (follows_bodiless .runtimeClass).rule).of_alike
      (Phrase.alike_alt_assoc _ _ _)

theorem follows_definition :
    Follows n (.rule .definition) definition definition DefinitionSource.unlined := by
  refine .rule (follows_attributeBlock.many.bind fun attributes attributes' hattributes => ?_)
  refine (follows_fixed "winrt" rfl).optional.bind fun winrt winrt' hwinrt => ?_
  refine follows_body.map fun body body' hbody => ?_
  have hmark : (winrt.map (·.line)).map (fun _ => 0) = (winrt'.map (·.line)).map fun _ => 0 := by
    cases winrt <;> cases winrt' <;> simp_all
  rw [DefinitionSource.unlined, DefinitionSource.unlined, hattributes, hbody, hmark]

/-! ### Whole texts -/

theorem follows_namespaceBlock :
    Follows n (.rule .namespaceBlock) namespaceBlock namespaceBlock NamespaceSource.unlined := by
  refine .rule ((follows_fixed "namespace" rfl).bind fun mark mark' _ => ?_)
  refine follows_dottedName.bind fun name name' hname => .behind "\x7b" rfl ?_
  refine follows_definition.many.bind fun ds ds' hdefinitions => follows_closing "\x7d" rfl ?_
  rw [NamespaceSource.unlined, NamespaceSource.unlined, hname, hdefinitions]

/-- **The grammar and its words.**  A text consists of words that the grammar yields, and two texts of
the same words have the same tree up to lines. -/
theorem follows_document (n : Nat) :
    Follows n (.rule .start) document document (List.map NamespaceSource.unlined) :=
  .rule follows_namespaceBlock.many

end Bindery.Source
