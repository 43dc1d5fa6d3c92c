import Bindery.Source.Terminal
import Bindery.Source.Tree
/-!
# Reading source trees

A text is read from left to right by descent through the grammar, without cutting it into tokens
first: at each point the terminal that the grammar asks for is taken if it stands there.  So a word
can be a keyword in one place and a name in another.

Where reading fails, the result is the number of characters left at the furthest point that some
way of reading the text came to, layout behind the last terminal included.
-/

namespace Bindery.Source

/-- A point in a text: the line number and the characters from there on. -/
structure Cursor where
  line : Nat
  rest : List Char

/-- The point after `taken`, from which `rest` is left. -/
def Cursor.after (c : Cursor) (taken rest : List Char) : Cursor :=
  ⟨c.line + taken.count '\n', rest⟩

/-- The point behind the layout. -/
def Cursor.skipLayout (c : Cursor) : Cursor :=
  let (layout, rest) := layoutSpan false c.rest
  c.after layout rest

/-- A reader of a part of a text. -/
abbrev Parser (α : Type) := StateT Cursor (Except Nat) α

namespace Parser

variable {α : Type}

/-! ### Building blocks -/

/-- Failure at the next terminal. -/
def failure : Parser α := fun c => .error c.skipLayout.rest.length

/-- The character with which the next terminal starts. -/
def peek : Parser (Option Char) := fun c => .ok (c.skipLayout.rest.head?, c)

def expect (t : Terminal) : Parser (Located String) := fun c =>
  let c := c.skipLayout
  match t.take? c.rest with
  | some (taken, rest) => .ok (⟨c.line, .ofList taken⟩, c.after taken rest)
  | none => .error c.rest.length

def fixed (text : String) : Parser (Located String) := expect (.fixed text)

/-- The first of two ways to read that succeeds. -/
def either (p q : Parser α) : Parser α := fun c =>
  match p c with
  | .ok r => .ok r
  | .error i =>
    match q c with
    | .ok r => .ok r
    | .error j => .error (min i j)

/-- A part that is there if the next terminal starts with `c`. -/
def whenNext (c : Char) (p : Parser α) : Parser (Option α) := do
  if (← peek) = some c then return some (← p) else return none

/-- At most `fuel` parts, as long as the next terminal starts as asked. -/
def manyFuel (more : Option Char → Bool) (p : Parser α) : Nat → Parser (List α)
  | 0 => do
    if more (← peek) then failure else return []
  | fuel + 1 => do
    if more (← peek) then
      let a ← p
      return a :: (← manyFuel more p fuel)
    else return []

/-- Parts as long as the next terminal starts as asked.  Each part has at least one character, so
there are not more of them than characters. -/
def manyWhile (more : Option Char → Bool) (p : Parser α) : Parser (List α) := fun c =>
  manyFuel more p c.rest.length c

/-- Parts up to a mark. -/
def manyUntil (close : Char) (p : Parser α) : Parser (List α) :=
  manyWhile (· != some close) p

/-- Parts that each follow a mark. -/
def manyAfter (mark : Char) (p : Parser α) : Parser (List α) :=
  manyWhile (· == some mark) do
    discard <| fixed mark.toString
    p

/-! ### Names and literals -/

def name : Parser (Located String) := expect .name

/-- A name without its line. -/
def nameText : Parser String := return (← name).value

def number : Parser (Located Value) := do
  let token ← expect .number
  return ⟨token.line, numberValue token.value.toList⟩

def string : Parser (Located Value) := do
  let token ← expect .string
  return ⟨token.line, stringValue token.value.toList⟩

/-- Names with dots between them. -/
def dottedName : Parser DottedName := do
  let first ← name
  return ⟨first, ← manyAfter '.' nameText⟩

/-! ### Attributes -/

def argument : Parser (Located Argument) :=
  either (do let s ← string; return ⟨s.line, .literal s.value⟩)
    (either (do let n ← number; return ⟨n.line, .literal n.value⟩)
      (do let n ← name; return ⟨n.line, .bare n.value⟩))

/-- The arguments of an attribute, in brackets. -/
def arguments : Parser (Located (List (Located Argument))) := do
  let mark ← fixed "("
  let args ←
    if (← peek) = some ')' then pure []
    else do
      let first ← argument
      let others ← manyAfter ',' argument
      pure (first :: others)
  discard <| fixed ")"
  return ⟨mark.line, args⟩

def attributeBlock : Parser AttributeSource := do
  let mark ← fixed "["
  let name ← nameText
  let args ← whenNext '(' arguments
  discard <| fixed "]"
  return ⟨mark.line, name, args⟩

/-- The attributes in front of a definition. -/
def attributeBlocks : Parser (List AttributeSource) := manyWhile (· == some '[') attributeBlock

/-! ### Types -/

/-- The mark of a pointer, and whether it is one to constant data. -/
def pointerMark : Parser (Located Bool) :=
  either (do let mark ← fixed "*mut"; return ⟨mark.line, false⟩)
    (do let mark ← fixed "*const"; return ⟨mark.line, true⟩)

/-- A type in which pointers and arrays are nested less than `fuel` deep. -/
def typeFuel : Nat → Parser TypeSource
  | 0 => failure
  | fuel + 1 => do
    match ← peek with
    | some '*' =>
      let mark ← pointerMark
      return .pointer mark.line mark.value (← typeFuel fuel)
    | some '[' =>
      let mark ← fixed "["
      let element ← typeFuel fuel
      discard <| fixed ";"
      let length ← number
      discard <| fixed "]"
      return .array mark.line element length.value
    | _ => return .named (← dottedName)

/-- A type.  Each pointer or array takes a character, which bounds their depth. -/
def type : Parser TypeSource := fun c => typeFuel (c.rest.length + 1) c

/-! ### Structs and unions -/

def generics : Parser (Located (List String)) := do
  let mark ← fixed "<"
  let first ← nameText
  let others ← manyAfter ',' nameText
  discard <| fixed ">"
  return ⟨mark.line, first :: others⟩

def heading : Parser Heading := do
  let (line, isUnion) ← either (do return ((← fixed "struct").line, false))
    (do return ((← fixed "union").line, true))
  let name ← nameText
  return ⟨line, isUnion, name, ← whenNext '<' generics⟩

def field : Parser Member := do
  let name ← name
  discard <| fixed ":"
  let type ← type
  discard <| fixed ";"
  return .field name type

def literal : Parser (Located Value) := either string number

def constant : Parser Member := do
  let keyword ← fixed "const"
  let name ← nameText
  discard <| fixed ":"
  let type ← nameText
  discard <| fixed "="
  let value ← literal
  discard <| fixed ";"
  return .constant keyword.line name type value

/-- The members of a struct or union, in curly brackets, given how to read one. -/
def members (member : Parser Member) : Parser (List Member) := do
  discard <| fixed "\x7b"
  let ms ← manyUntil '\x7d' member
  discard <| fixed "\x7d"
  return ms

/-- A member in which definitions are nested less than `fuel` deep. -/
def memberFuel : Nat → Parser Member
  | 0 => failure
  | fuel + 1 =>
    either field (either constant do
      let attributes ← attributeBlocks
      let heading ← heading
      return .nested attributes heading (← members (memberFuel fuel)))

/-- A member.  Each nested definition takes a character, which bounds their depth. -/
def member : Parser Member := fun c => memberFuel (c.rest.length + 1) c

def aggregate : Parser Body := do
  let heading ← heading
  return .aggregate heading (← members member)

/-! ### The other definitions -/

def enumItem : Parser EnumItem := do
  let name ← name
  let number ← whenNext '=' do
    discard <| fixed "="
    return (← number).value
  return ⟨name, number⟩

/-- The values of an enumeration; a comma may follow the last. -/
def enumItems : Parser (List EnumItem) := do
  if (← peek) = some '\x7d' then return []
  let first ← enumItem
  let others ← manyAfter ',' do
    if (← peek) = some '\x7d' then return none else return some (← enumItem)
  return first :: others.filterMap id

def enumeration : Parser Body := do
  let keyword ← fixed "enum"
  let name ← nameText
  let underlying ← whenNext ':' do
    discard <| fixed ":"
    nameText
  discard <| fixed "\x7b"
  let items ← enumItems
  discard <| fixed "\x7d"
  return .enumeration keyword.line name underlying items

/-- A definition that consists of a name only. -/
def bodiless (kind : Bodiless) : Parser Body := do
  let keyword ← fixed kind.keyword
  let name ← nameText
  discard <| fixed ";"
  return .bodiless kind keyword.line name

def body : Parser Body :=
  either aggregate (either enumeration
    (either (bodiless .delegate) (either (bodiless .interface) (bodiless .runtimeClass))))

def definition : Parser DefinitionSource := do
  let attributes ← attributeBlocks
  let winrt ← whenNext 'w' (fixed "winrt")
  return ⟨attributes, winrt.map (·.line), ← body⟩

/-! ### Whole texts -/

def namespaceBlock : Parser NamespaceSource := do
  let keyword ← fixed "namespace"
  let name ← dottedName
  discard <| fixed "\x7b"
  let definitions ← manyUntil '\x7d' definition
  discard <| fixed "\x7d"
  return ⟨keyword.line, name, definitions⟩

/-- Namespaces up to the end of the text. -/
def document : Parser Document := manyWhile (·.isSome) namespaceBlock

end Parser

/-- The tree of a text, or the number of characters left where reading came to its end. -/
def read (text : List Char) : Except Nat Document :=
  (Parser.document ⟨1, text⟩).map (·.1)

end Bindery.Source
