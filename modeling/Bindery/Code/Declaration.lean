import Bindery.Code.Identifier
import Bindery.Guid
import Bindery.Text.Lines
import Bindery.Text.Literal
/-!
# Declarations

The declarations of generated code as data, and their text.
-/

namespace Bindery.Code

/-- The name and the generic parameters of a declared type. -/
structure Head where
  name : String
  generics : List String
  deriving DecidableEq, Repr

/-- How one field is compared: by value, or a callback by its address. -/
structure Comparison where
  accessor : String
  byAddress : Bool
  deriving DecidableEq, Repr

/-- A declaration.  Fields, defaults and accessors come in the order of the fields; `positional`
types have no identifiers for them. -/
inductive Declaration
  | guidConstant (name : String) (guid : Guid)
  | union (head : Head) (fields : List (String × String))
  | struct (head : Head) (positional : Bool) (fields : List (String × String))
  | abiStruct (head : Head) (entries : List String)
  | constants (head : Head) (items : List (String × String))
  | abiImpl (head : Head)
  | defaultImpl (head : Head) (positional : Bool) (values : List (String × String))
  | debugImpl (head : Head) (entries : List (String × String))
  | partialEqImpl (head : Head) (comparisons : List Comparison)
  | eqImpl (head : Head)
  | copyImpl (head : Head)
  | runtimeTypeImpl (head : Head) (signature : String)
  deriving DecidableEq, Repr

inductive DeclarationKind
  | guidConstant | union | struct | abiStruct | constants | abiImpl | defaultImpl | debugImpl
  | partialEqImpl | eqImpl | copyImpl | runtimeTypeImpl
  deriving DecidableEq, Repr

def DeclarationKind.name : DeclarationKind → String
  | guidConstant => "guid_constant"
  | union => "union"
  | struct => "struct"
  | abiStruct => "abi_struct"
  | constants => "constants"
  | abiImpl => "abi_impl"
  | defaultImpl => "default_impl"
  | debugImpl => "debug_impl"
  | partialEqImpl => "partial_eq_impl"
  | eqImpl => "eq_impl"
  | copyImpl => "copy_impl"
  | runtimeTypeImpl => "runtime_type_impl"

/-! ### Text of the parts -/

def indentation : String := "    "

/-- A line one level further in. -/
def indent (line : String) : String := indentation ++ line

def block (heading : String) (body : List String) : List String :=
  (heading ++ " \x7b") :: body.map indent ++ ["\x7d"]

namespace Head

def declared (h : Head) : String :=
  if h.generics.isEmpty then ""
  else
    "<" ++ ", ".intercalate (h.generics.map fun p => p ++ ": ::windows::RuntimeType + 'static") ++ ">"

/-- The generic parameters as arguments. -/
def used (h : Head) : String :=
  if h.generics.isEmpty then "" else "<" ++ ", ".intercalate h.generics ++ ">"

def selfType (h : Head) : String := h.name ++ h.used

def implHeading (h : Head) (trait : String) : String :=
  "impl" ++ h.declared ++ " " ++ trait ++ " for " ++ h.selfType

def emptyImpl (h : Head) (trait : String) : String := h.implHeading trait ++ " \x7b\x7d"

def impl (h : Head) (trait : String) (body : List String) : String :=
  Text.joinLines (block (h.implHeading trait) body)

end Head

/-- What stands in front of a struct or union. -/
def aggregateAttributes : List String :=
  ["#[repr(C)]", "#[allow(non_snake_case)]", "#[derive(::std::clone::Clone)]"]

def fieldLines (fields : List (String × String)) : List String :=
  fields.map fun (name, type) => "pub " ++ name ++ ": " ++ type ++ ","

def defaultValue (positional : Bool) (values : List (String × String)) : String :=
  if positional then "Self(" ++ ", ".intercalate (values.map (·.2)) ++ ")"
  else if values.isEmpty then "Self \x7b\x7d"
  else
    "Self \x7b " ++ ", ".intercalate (values.map fun (name, value) => name ++ ": " ++ value) ++ " \x7d"

/-- One step of the chain that shows the fields. -/
def debugEntry (label accessor : String) : String :=
  ".field(" ++ Text.stringLiteral label ++ ", &format_args!(\x22\x7b:?\x7d\x22, self." ++ accessor ++ "))"

def Comparison.text (c : Comparison) : String :=
  let side (who : String) : String :=
    who ++ "." ++ c.accessor ++ if c.byAddress then ".map(|f| f as usize)" else ""
  side "self" ++ " == " ++ side "other"

def comparisonText (comparisons : List Comparison) : String :=
  if comparisons.isEmpty then "true" else " && ".intercalate (comparisons.map (·.text))

/-! ### Text of a declaration -/

namespace Declaration

def kind : Declaration → DeclarationKind
  | guidConstant .. => .guidConstant
  | union .. => .union
  | struct .. => .struct
  | abiStruct .. => .abiStruct
  | constants .. => .constants
  | abiImpl .. => .abiImpl
  | defaultImpl .. => .defaultImpl
  | debugImpl .. => .debugImpl
  | partialEqImpl .. => .partialEqImpl
  | eqImpl .. => .eqImpl
  | copyImpl .. => .copyImpl
  | runtimeTypeImpl .. => .runtimeTypeImpl

/-- The name of the type that a declaration belongs to. -/
def typeName : Declaration → String
  | guidConstant name _ => name
  | union head .. | struct head .. | abiStruct head .. | constants head .. | abiImpl head
  | defaultImpl head .. | debugImpl head .. | partialEqImpl head .. | eqImpl head | copyImpl head
  | runtimeTypeImpl head .. => head.name

def text : Declaration → String
  | guidConstant name guid => "pub const " ++ name ++ ": ::windows::Guid = " ++ guid.code ++ ";"
  | union head fields =>
    Text.joinLines (aggregateAttributes ++
      block ("pub union " ++ head.name ++ head.declared) (fieldLines fields))
  | struct head true fields =>
    Text.joinLines (aggregateAttributes ++
      ["pub struct " ++ head.name ++ head.declared ++ "(" ++
        ", ".intercalate (fields.map fun (_, type) => "pub " ++ type) ++ ");"])
  | struct head false fields =>
    Text.joinLines (aggregateAttributes ++
      block ("pub struct " ++ head.name ++ head.declared) (fieldLines fields))
  | abiStruct head entries =>
    Text.joinLines ["#[repr(C)]", "#[doc(hidden)]",
      "pub struct " ++ head.name ++ "_abi" ++ head.declared ++ "(" ++ ", ".intercalate entries ++ ");"]
  | constants head items =>
    Text.joinLines (block ("impl" ++ head.declared ++ " " ++ head.selfType)
      (items.map fun (name, value) => "pub const " ++ name ++ ": " ++ value ++ ";"))
  | abiImpl head =>
    "unsafe " ++ head.impl "::windows::Abi" ["type Abi = " ++ head.name ++ "_abi" ++ head.used ++ ";"]
  | defaultImpl head positional values =>
    head.impl "::std::default::Default"
      (block "fn default() -> Self" [defaultValue positional values])
  | debugImpl head entries =>
    head.impl "::std::fmt::Debug"
      (block "fn fmt(&self, fmt: &mut ::std::fmt::Formatter<'_>) -> ::std::fmt::Result"
        (("fmt.debug_struct(" ++ Text.stringLiteral head.name ++ ")") ::
          ((entries.map fun (label, accessor) => debugEntry label accessor) ++
            [".finish()"]).map indent))
  | partialEqImpl head comparisons =>
    head.impl "::std::cmp::PartialEq"
      (block "fn eq(&self, other: &Self) -> bool" [comparisonText comparisons])
  | eqImpl head => head.emptyImpl "::std::cmp::Eq"
  | copyImpl head => head.emptyImpl "::std::marker::Copy"
  | runtimeTypeImpl head signature =>
    "unsafe " ++ head.impl "::windows::RuntimeType"
      ["type DefaultType = Self;",
       "const SIGNATURE: ::windows::ConstBuffer = ::windows::ConstBuffer::from_slice(" ++
         Text.byteStringLiteral signature ++ ");"]

end Declaration

def joinDeclarations (ds : List Declaration) : String :=
  Text.joinLines (ds.map (·.text))

end Bindery.Code
