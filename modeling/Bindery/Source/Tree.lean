import Bindery.Value
/-!
# Source trees

What a metadata text says, piece by piece.  Every part keeps the line on which its first terminal
stands.
-/

namespace Bindery.Source

/-- Something with the line on which it starts. -/
structure Located (α : Type) where
  line : Nat
  value : α
  deriving DecidableEq, Repr

/-- A name of one or more parts with dots between them. -/
structure DottedName where
  first : Located String
  others : List String
  deriving DecidableEq, Repr

def DottedName.parts (n : DottedName) : List String := n.first.value :: n.others

def DottedName.text (n : DottedName) : String := ".".intercalate n.parts

inductive Argument
  | bare (name : String)
  | literal (value : Value)
  deriving DecidableEq, Repr

/-- An attribute; the list of arguments may be missing. -/
structure AttributeSource where
  line : Nat
  name : String
  args : Option (Located (List (Located Argument)))
  deriving DecidableEq, Repr

/-- A type as it is written. -/
inductive TypeSource
  | named (name : DottedName)
  | pointer (line : Nat) (isConst : Bool) (element : TypeSource)
  | array (line : Nat) (element : TypeSource) (length : Value)
  deriving DecidableEq, Repr

def TypeSource.line : TypeSource → Nat
  | named name => name.first.line
  | pointer line .. | array line .. => line

structure Heading where
  line : Nat
  isUnion : Bool
  name : String
  generics : Option (Located (List String))
  deriving DecidableEq, Repr

inductive Member
  | field (name : Located String) (type : TypeSource)
  | constant (line : Nat) (name type : String) (value : Located Value)
  | nested (attributes : List AttributeSource) (heading : Heading) (members : List Member)

def Member.line : Member → Nat
  | field name _ => name.line
  | constant line .. => line
  | nested (a :: _) .. => a.line
  | nested [] heading _ => heading.line

structure EnumItem where
  name : Located String
  number : Option Value
  deriving DecidableEq, Repr

/-- The kinds of definition that consist of a name only. -/
inductive Bodiless
  | delegate | interface | runtimeClass
  deriving DecidableEq, Repr

def Bodiless.keyword : Bodiless → String
  | delegate => "delegate"
  | interface => "interface"
  | runtimeClass => "class"

/-- What a definition defines. -/
inductive Body
  | aggregate (heading : Heading) (members : List Member)
  | enumeration (line : Nat) (name : String) (underlying : Option String) (items : List EnumItem)
  | bodiless (kind : Bodiless) (line : Nat) (name : String)

def Body.line : Body → Nat
  | aggregate heading _ => heading.line
  | enumeration line .. | bodiless _ line _ => line

/-- A definition with its attributes and, if it is marked as WinRT, the line of the mark. -/
structure DefinitionSource where
  attributes : List AttributeSource
  winrt : Option Nat
  body : Body

def DefinitionSource.line (d : DefinitionSource) : Nat :=
  match d.attributes, d.winrt with
  | a :: _, _ => a.line
  | [], some line => line
  | [], none => d.body.line

structure NamespaceSource where
  line : Nat
  name : DottedName
  definitions : List DefinitionSource

abbrev Document := List NamespaceSource

end Bindery.Source
