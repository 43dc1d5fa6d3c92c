import Bindery.Error
import Bindery.Text.Literal
/-!
# Constants in code

A constant is written as its type, an equals sign and a literal.  Numbers carry their type as a
suffix; floating-point types take any value that can be read as a number.
-/

namespace Bindery

/-- The floating-point number that a literal stands for. -/
def Value.toDouble : Value → Except Error Double
  | double x => .ok x
  | text s =>
    match Double.read? s with
    | some x => .ok x
    | Option.none => .error (.notNumeral (.text s))
  | v =>
    match v.int? with
    | some n =>
      match Double.ofInt? n with
      | some x => .ok x
      | Option.none => .error (.beyondDouble n)
    | Option.none => .error (.notNumeral v)

namespace Constant

/-- The type of a constant in code; a name that is not primitive stands for itself. -/
def codeType (typeName : String) : String :=
  ((Primitive.ofName? typeName).bind Primitive.builtIn?).getD typeName

def isFloating (c : Constant) : Bool :=
  match c.value with
  | .double _ => true
  | _ => (Primitive.ofName? c.typeName).any Primitive.isFloat

def code (c : Constant) : Except Error String :=
  if c.typeName = Primitive.string.name then
    .ok ("&'static str = " ++ Text.stringLiteral c.value.plain)
  else if c.typeName = Primitive.bool.name then
    .ok ("bool = " ++ if c.value.isTrue then "true" else "false")
  else
    let type := codeType c.typeName
    if c.isFloating then do
      let x ← c.value.toDouble
      .ok (type ++ " = " ++ x.written Value.numberStyle ++ type)
    else
      .ok (type ++ " = " ++ c.value.plain ++ type)

def shown (c : Constant) : String :=
  "ConstantValue(value=" ++ c.value.shown ++ ", type_name=" ++ Text.quoted c.typeName ++ ")"

end Constant

end Bindery
