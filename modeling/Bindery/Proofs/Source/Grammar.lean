import Mathlib.Logic.Relation
import Bindery.Proofs.Source.Pattern
import Bindery.Source.Parser
/-!
# The grammar

The grammar of metadata text as a derivation relation.  A rule (`Rule`) tells which trees it derives
between which points of a text.  The rules are put together from terminals, which match a pattern by
themselves behind any layout (`terminal`), by sequence (`do`), choice (`Rule.or`), `optional` and
`Many`; types and members are defined inductively.  Nothing here looks ahead or prefers one way of
reading a text to another.
-/

namespace Bindery.Source

/-- A rule of the grammar: the trees that it derives from one point of a text to another. -/
def Rule (α : Type) : Type := Cursor → α → Cursor → Prop

namespace Rule

variable {α β : Type}

instance : Monad Rule where
  pure a := fun c b c' => b = a ∧ c' = c
  bind R S := fun c b c'' => ∃ a c', R c a c' ∧ S a c' b c''

def or (R S : Rule α) : Rule α := fun c a c' => R c a c' ∨ S c a c'

def optional (R : Rule α) : Rule (Option α) := fun c o c' =>
  (o = none ∧ c' = c) ∨ ∃ a, o = some a ∧ R c a c'

end Rule

inductive Many {α : Type} (R : Rule α) : Cursor → List α → Cursor → Prop
  | nil {c : Cursor} : Many R c [] c
  | cons {c c₁ c₂ : Cursor} {a : α} {as : List α} : R c a c₁ → Many R c₁ as c₂ → Many R c (a :: as) c₂

namespace Grammar

/-! ### Layout and terminals -/

/-- A comment, or a run of blanks, as it matches by itself. -/
def LayoutStep (c c' : Cursor) : Prop :=
  ∃ p ∈ [Pattern.comment, Pattern.blanks], ∃ taken rest, p.match? c.rest = some (taken, rest) ∧
    c' = c.after taken rest

/-- Any run of comments and blanks. -/
def Layout : Cursor → Cursor → Prop := Relation.ReflTransGen LayoutStep

/-- A terminal behind any layout, as its pattern matches by itself, with the line where it starts. -/
def terminal (p : Pattern) : Rule (Located String) := fun c token c' =>
  ∃ c₁, Layout c c₁ ∧ ∃ taken rest, p.match? c₁.rest = some (taken, rest) ∧
    token = ⟨c₁.line, .ofList taken⟩ ∧ c' = c₁.after taken rest

def fixed (text : String) : Rule (Located String) := terminal (.text text)

def name : Rule (Located String) := terminal .name

/-- A name without its line. -/
def nameText : Rule String := do
  let name ← name
  return name.value

def number : Rule (Located Value) := do
  let token ← terminal .number
  return ⟨token.line, numberValue token.value.toList⟩

def string : Rule (Located Value) := do
  let token ← terminal .string
  return ⟨token.line, stringValue token.value.toList⟩

/-- A rule behind a mark. -/
def behind {α : Type} (mark : String) (R : Rule α) : Rule α := do
  let _ ← fixed mark
  R

/-- `dotted_name: NAME ("." NAME)*` -/
def dottedName : Rule DottedName := do
  let first ← name
  let others ← Many (behind "." nameText)
  return ⟨first, others⟩

/-! ### Attributes -/

/-- `attribute_arg: STRING | NUMBER | NAME` -/
def argument : Rule (Located Argument) :=
  .or (do let s ← string; return ⟨s.line, .literal s.value⟩)
    (.or (do let n ← number; return ⟨n.line, .literal n.value⟩)
      (do let n ← name; return ⟨n.line, .bare n.value⟩))

/-- `attribute_arg ("," attribute_arg)*` -/
def argumentList : Rule (List (Located Argument)) := do
  let first ← argument
  let others ← Many (behind "," argument)
  return first :: others

/-- `attribute_args: "(" (attribute_arg ("," attribute_arg)*)? ")"` -/
def arguments : Rule (Located (List (Located Argument))) := do
  let mark ← fixed "("
  let args ← .or (pure []) argumentList
  let _ ← fixed ")"
  return ⟨mark.line, args⟩

/-- `attribute: "[" NAME attribute_args? "]"` -/
def attributeBlock : Rule AttributeSource := do
  let mark ← fixed "["
  let name ← nameText
  let args ← arguments.optional
  let _ ← fixed "]"
  return ⟨mark.line, name, args⟩

/-! ### Types -/

/-- The types.
`type_expr: pointer_type | array_type | named_type`,
`pointer_type: POINTER type_expr`,
`array_type: "[" type_expr ";" NUMBER "]"`,
`named_type: dotted_name`. -/
inductive IsType : Cursor → TypeSource → Cursor → Prop
  | pointer {c c₁ c₂ : Cursor} {mark : Located String} {element : TypeSource} :
    terminal .pointer c mark c₁ → IsType c₁ element c₂ →
    IsType c (.pointer mark.line (mark.value = "*const") element) c₂
  | array {c c₁ c₂ c₃ c₄ c₅ : Cursor} {mark semicolon close : Located String}
      {element : TypeSource} {length : Located Value} :
    fixed "[" c mark c₁ → IsType c₁ element c₂ → fixed ";" c₂ semicolon c₃ →
    number c₃ length c₄ → fixed "]" c₄ close c₅ →
    IsType c (.array mark.line element length.value) c₅
  | named {c c₁ : Cursor} {name : DottedName} : dottedName c name c₁ → IsType c (.named name) c₁

def type : Rule TypeSource := IsType

/-! ### Structs and unions -/

/-- `generic_params: "<" NAME ("," NAME)* ">"` -/
def generics : Rule (Located (List String)) := do
  let mark ← fixed "<"
  let first ← nameText
  let others ← Many (behind "," nameText)
  let _ ← fixed ">"
  return ⟨mark.line, first :: others⟩

/-- The opening of a struct or union, `("struct" | "union") NAME generic_params?` -/
def heading : Rule Heading := do
  let (line, isUnion) ← .or (do return ((← fixed "struct").line, false))
    (do return ((← fixed "union").line, true))
  let name ← nameText
  let generics ← generics.optional
  return ⟨line, isUnion, name, generics⟩

/-- `field: NAME ":" type_expr ";"` -/
def field : Rule Member := do
  let name ← name
  let _ ← fixed ":"
  let type ← type
  let _ ← fixed ";"
  return .field name type

/-- `literal: STRING | NUMBER` -/
def literal : Rule (Located Value) := .or string number

/-- `constant: "const" NAME ":" NAME "=" literal ";"` -/
def constant : Rule Member := do
  let keyword ← fixed "const"
  let name ← nameText
  let _ ← fixed ":"
  let type ← nameText
  let _ ← fixed "="
  let value ← literal
  let _ ← fixed ";"
  return .constant keyword.line name type value

/-- The members.
`member: field | constant | nested_def`,
`nested_def: attribute* (struct_def | union_def)`. -/
inductive IsMember : Cursor → Member → Cursor → Prop
  | field {c c₁ : Cursor} {m : Member} : field c m c₁ → IsMember c m c₁
  | constant {c c₁ : Cursor} {m : Member} : constant c m c₁ → IsMember c m c₁
  | nested {c c₁ c₂ c₃ c₄ c₅ : Cursor} {attributes : List AttributeSource} {opening : Heading}
      {mark close : Located String} {members : List Member} :
    Many attributeBlock c attributes c₁ → heading c₁ opening c₂ → fixed "\x7b" c₂ mark c₃ →
    Many IsMember c₃ members c₄ → fixed "\x7d" c₄ close c₅ →
    IsMember c (.nested attributes opening members) c₅

def member : Rule Member := IsMember

/-- `"{" member* "}"` -/
def members : Rule (List Member) := do
  let _ ← fixed "\x7b"
  let members ← Many member
  let _ ← fixed "\x7d"
  return members

/-- `struct_def: "struct" NAME generic_params? "{" member* "}"`, and unions alike. -/
def aggregate : Rule Body := do
  let heading ← heading
  let members ← members
  return .aggregate heading members

/-! ### The other definitions -/

/-- `enum_value: NAME ("=" NUMBER)?` -/
def enumItem : Rule EnumItem := do
  let name ← name
  let number ← Rule.optional do
    let _ ← fixed "="
    let number ← number
    return number.value
  return ⟨name, number⟩

/-- `enum_value ("," enum_value)* ","?` -/
def enumItems : Rule (List EnumItem) := do
  let first ← enumItem
  let others ← Many (behind "," enumItem)
  let _ ← (fixed ",").optional
  return first :: others

/-- `enum_def: "enum" NAME (":" NAME)? "{" (enum_value ("," enum_value)* ","?)? "}"` -/
def enumeration : Rule Body := do
  let keyword ← fixed "enum"
  let name ← nameText
  let underlying ← (behind ":" nameText).optional
  let _ ← fixed "\x7b"
  let items ← .or (pure []) enumItems
  let _ ← fixed "\x7d"
  return .enumeration keyword.line name underlying items

/-- `delegate_def: "delegate" NAME ";"`, and interfaces and classes alike. -/
def bodiless (kind : Bodiless) : Rule Body := do
  let keyword ← fixed kind.keyword
  let name ← nameText
  let _ ← fixed ";"
  return .bodiless kind keyword.line name

/-- `struct_def | union_def | enum_def | delegate_def | interface_def | class_def` -/
def body : Rule Body :=
  .or aggregate (.or enumeration
    (.or (bodiless .delegate) (.or (bodiless .interface) (bodiless .runtimeClass))))

/-- `definition: attribute* WINRT? (struct_def | ... | class_def)` -/
def definition : Rule DefinitionSource := do
  let attributes ← Many attributeBlock
  let winrt ← (fixed "winrt").optional
  let body ← body
  return ⟨attributes, winrt.map (·.line), body⟩

/-! ### Whole texts -/

/-- `namespace: "namespace" dotted_name "{" definition* "}"` -/
def namespaceBlock : Rule NamespaceSource := do
  let keyword ← fixed "namespace"
  let name ← dottedName
  let _ ← fixed "\x7b"
  let definitions ← Many definition
  let _ ← fixed "\x7d"
  return ⟨keyword.line, name, definitions⟩

/-- `start: namespace*` -/
def document : Rule Document := Many namespaceBlock

end Grammar

/-- A text derives a tree: it has the form of the grammar up to its end, layout aside. -/
def Derives (text : List Char) (d : Document) : Prop :=
  ∃ c c', Grammar.document ⟨1, text⟩ d c ∧ Grammar.Layout c c' ∧ c'.rest = []

end Bindery.Source
