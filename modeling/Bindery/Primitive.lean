/-!
# Primitive types

The types that metadata names without a definition.  Each has its name in metadata; most have a
type of the generated language and a fragment of runtime signatures.
-/

namespace Bindery

inductive Primitive
  | void | bool | char
  | i8 | u8 | i16 | u16 | i32 | u32 | i64 | u64
  | f32 | f64 | isize | usize
  | string | object | guid
  deriving DecidableEq, Repr

namespace Primitive

def all : List Primitive :=
  [void, bool, char, i8, u8, i16, u16, i32, u32, i64, u64, f32, f64, isize, usize,
   string, object, guid]

def name : Primitive → String
  | void => "void" | bool => "bool" | char => "char"
  | i8 => "i8" | u8 => "u8" | i16 => "i16" | u16 => "u16"
  | i32 => "i32" | u32 => "u32" | i64 => "i64" | u64 => "u64"
  | f32 => "f32" | f64 => "f64" | isize => "isize" | usize => "usize"
  | string => "string" | object => "object" | guid => "guid"

def ofName? (text : String) : Option Primitive :=
  all.find? (·.name = text)

/-- The corresponding built-in type of the generated language.  Text, objects and identities are
library types there. -/
def builtIn? : Primitive → Option String
  | void => some "::std::ffi::c_void"
  | char => some "u16"
  | string | object | guid => none
  | p => some p.name

/-- The fragment that stands for the type in a runtime signature. -/
def signature? : Primitive → Option String
  | bool => some "b1" | char => some "c2"
  | i8 => some "i1" | u8 => some "u1" | i16 => some "i2" | u16 => some "u2"
  | i32 => some "i4" | u32 => some "u4" | i64 => some "i8" | u64 => some "u8"
  | f32 => some "f4" | f64 => some "f8"
  | string => some "string" | object => some "cinterface(IInspectable)" | guid => some "g16"
  | void | isize | usize => none

def isFloat : Primitive → Bool
  | f32 | f64 => true
  | _ => false

end Primitive

end Bindery
