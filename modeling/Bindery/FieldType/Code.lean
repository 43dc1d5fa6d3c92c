import Bindery.FieldType.Blittable
/-!
# Field types in code

The three forms of a field type in code: the type of the field itself, its default value, and the
type that stands for it at call boundaries.
-/

namespace Bindery

/-- Categories whose values are references that may be missing. -/
def Category.isNullable : Category → Bool
  | delegate | interface | runtimeClass => true
  | struct | enum => false

namespace FieldType

/-- A type whose value may be missing. -/
def optionOf (path : String) : String := "::std::option::Option<" ++ path ++ ">"

/-- The base type as written in a module of the namespace `source`. -/
def baseCode (t : FieldType) (source : String) : String :=
  match t.base with
  | .primitive .string => "::windows::HString"
  | .primitive .object => optionOf "::windows::Object"
  | .primitive .guid => "::windows::Guid"
  | .primitive p => p.builtIn?.getD p.name
  | .generic name => name
  | .named n =>
    if n.category.isNullable then optionOf (n.codePath source) else n.codePath source

/-- A base type in code with the pointers and the array around it. -/
def wrap (t : FieldType) (base : String) : String :=
  let marks := List.replicate t.pointers.toNat (if t.isConst then "*const " else "*mut ")
  let element := String.join marks ++ base
  match t.array with
  | some n => "[" ++ element ++ "; " ++ n.plain ++ "]"
  | none => element

def fieldCode (t : FieldType) (source : String) : String := t.wrap (t.baseCode source)

def elementDefault (t : FieldType) : String :=
  if 0 < t.pointers then
    if t.isConst then "::std::ptr::null()" else "::std::ptr::null_mut()"
  else
    match t.base with
    | .primitive .bool => "false"
    | .primitive .f32 | .primitive .f64 => "0.0"
    | .primitive .string => "::std::default::Default::default()"
    | .primitive .object => "::std::option::Option::None"
    | .primitive .guid => "::windows::Guid::zeroed()"
    | .primitive _ => "0"
    | .generic _ => "::std::default::Default::default()"
    | .named n =>
      if n.category.isNullable then "::std::option::Option::None"
      else "::std::default::Default::default()"

/-- The default value of a field.  An array repeats the default of its elements if these can be
copied. -/
def defaultCode (reg : Registry) (t : FieldType) : Except Error String :=
  match t.array with
  | none => .ok t.elementDefault
  | some n => do
    if ← t.isBlittable reg then
      return "[" ++ t.elementDefault ++ "; " ++ n.plain ++ "]"
    else return "unsafe \x7b ::std::mem::zeroed() \x7d"

/-- A type taken through its counterpart at call boundaries. -/
def abiOf (path : String) : String := "<" ++ path ++ " as ::windows::Abi>::Abi"

/-- An untyped reference. -/
def rawPointer : String := "::windows::RawPtr"

/-- The type that stands for the base type at call boundaries. -/
def baseAbi (reg : Registry) (t : FieldType) (source : String) : Except Error String :=
  match t.base with
  | .primitive .string | .primitive .object => .ok rawPointer
  | .primitive _ => .ok (t.baseCode source)
  | .generic name => .ok (abiOf name)
  | .named n =>
    match n.category with
    | .interface | .runtimeClass => .ok rawPointer
    | .delegate => .ok (if n.winrt then rawPointer else t.baseCode source)
    | .enum => .ok (t.baseCode source)
    | .struct => do
      if ← reg.isBlittable n.place then return t.baseCode source
      else return abiOf (n.codePath source)

/-- The type that stands for the field at call boundaries. -/
def abiCode (reg : Registry) (t : FieldType) (source : String) : Except Error String :=
  if 0 < t.pointers then .ok (t.fieldCode source)
  else return t.wrap (← t.baseAbi reg source)

end FieldType

end Bindery
