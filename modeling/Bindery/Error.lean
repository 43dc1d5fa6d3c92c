import Bindery.Metadata.Definition
import Bindery.Primitive
/-!
# Errors

Everything that can go wrong while metadata is read, resolved, modelled and written, by its cause.
The wording is in `Error.message`.
-/

namespace Bindery

/-! ### Causes -/

/-- Where a type is used: in a field of a definition, or outside any field. -/
inductive TypeUse
  | field (name owner : String)
  | bare
  deriving DecidableEq, Repr

def TypeUse.text : TypeUse → String
  | field name owner => "field '" ++ name ++ "' of '" ++ owner ++ "'"
  | bare => ""

/-- A position in a text, both counts from one. -/
structure Position where
  line : Nat
  column : Nat
  deriving DecidableEq, Repr

inductive Error
  /-- The text does not follow the grammar.  Without a position, it ends too early. -/
  | malformed (file : String) (position : Option Position)
  | genericWinrt (file : String) (line : Nat) (name : String)
  | arrayLength (file : String) (line : Nat)
  | duplicateDefinition (qualifiedName : String)
  | duplicateNested (name enclosing : String)
  | notAggregate (qualifiedName : String) (category : Category)
  | nestedInGeneric (name enclosing : String)
  | nestedNotAnonymous (name enclosing : String)
  | literalStorage (name : String)
  | voidByValue (use : TypeUse)
  | pointerToArray (use : TypeUse)
  | nestedArray (use : TypeUse)
  | ambiguousType (name : String) (use : TypeUse) (candidates : List String)
  | unknownType (name : String) (use : TypeUse)
  | containsItself (qualifiedName : String)
  | noSignature (shownType : String)
  /-- The underlying type of an enumeration is primitive but has no signature. -/
  | noUnderlyingSignature (underlying : Primitive)
  /-- Working out a signature comes back to a struct that it is at work on, and never ends. -/
  | endlessSignature
  | guidText (text : String)
  | guidComponent (args : List Value)
  | guidArguments (args : List Value)
  | guidRange (value : Value)
  | guidLength
  | guidDigits (text : String)
  | notNumeral (value : Value)
  | beyondDouble (n : Int)
  | dependencyCycle (names : List String)
  deriving DecidableEq, Repr

/-- The kinds of error that callers tell apart. -/
inductive ErrorKind
  | metadata | anonymousName | cycle | value | missingSignature | overflow
  deriving DecidableEq, Repr

namespace Error

def kind : Error → ErrorKind
  | nestedNotAnonymous .. => .anonymousName
  | dependencyCycle .. => .cycle
  | literalStorage .. | guidRange .. | guidLength | guidDigits .. | notNumeral .. => .value
  | noUnderlyingSignature .. => .missingSignature
  -- a number that is too large, or a recursion that is too deep
  | beyondDouble .. | endlessSignature => .overflow
  | _ => .metadata

/-! ### Wording -/

/-- The place of a fault in a text; the end of the text has no position. -/
def placeText (file : String) : Option Position → String
  | some p => file ++ ":" ++ toString p.line ++ ":" ++ toString p.column
  | none => file ++ ":-1:-1"

def message : Error → String
  | malformed file position => placeText file position ++ ": invalid metadata syntax"
  | genericWinrt file line name =>
    file ++ ":" ++ toString line ++ ": WinRT struct '" ++ name ++ "' cannot have generic parameters"
  | arrayLength file line =>
    file ++ ":" ++ toString line ++ ": array length must be a positive integer"
  | duplicateDefinition name => "Duplicate type definition '" ++ name ++ "'"
  | duplicateNested name enclosing => "Duplicate nested type '" ++ name ++ "' in '" ++ enclosing ++ "'"
  | notAggregate name category => "'" ++ name ++ "' is a " ++ category.name ++ ", not a struct or union"
  | nestedInGeneric name enclosing =>
    "Nested type '" ++ name ++ "' in generic struct '" ++ enclosing ++ "' is not supported"
  | nestedNotAnonymous name enclosing =>
    "Nested type '" ++ name ++ "' in '" ++ enclosing ++ "' does not have a generated anonymous name"
  | literalStorage name => "Literal field '" ++ name ++ "' has no storage type"
  | voidByValue use => "Type 'void' is only valid behind a pointer (" ++ use.text ++ ")"
  | pointerToArray use => "Pointer to array is not supported (" ++ use.text ++ ")"
  | nestedArray use => "Nested arrays are not supported (" ++ use.text ++ ")"
  | ambiguousType name use candidates =>
    "Ambiguous type '" ++ name ++ "' for " ++ use.text ++ ": " ++ ", ".intercalate candidates
  | unknownType name use => "Cannot resolve type '" ++ name ++ "' for " ++ use.text
  | containsItself name => "Type '" ++ name ++ "' contains itself by value"
  | noSignature shownType => shownType ++ " has no runtime type signature"
  | noUnderlyingSignature underlying => underlying.name ++ " has no runtime type signature"
  | endlessSignature => "maximum recursion depth exceeded"
  | guidText text => "Invalid GUID string " ++ Text.quoted text
  | guidComponent args => "GUID component out of range in " ++ Value.shownList args
  | guidArguments args =>
    "Guid attribute expects one string or eleven integers, got " ++ Value.shownList args
  | guidRange value => "GUID value out of range: " ++ value.shown
  | guidLength => "badly formed hexadecimal UUID string"
  | guidDigits text =>
    "invalid literal for int() with base 16: " ++ .ofList ((Text.showQuoted text.toList).take 200)
  | notNumeral value => "could not convert string to float: " ++ value.shown
  | beyondDouble _ => "int too large to convert to float"
  | dependencyCycle names => "Cycle detected: " ++ " -> ".intercalate names

end Error

end Bindery
