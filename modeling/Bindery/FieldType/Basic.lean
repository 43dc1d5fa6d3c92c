import Bindery.Primitive
import Bindery.TypeName
/-!
# Field types

The type of a field once its names are resolved: a base type, the number of pointers to it, and the
length if it is an array.
-/

namespace Bindery

/-- What a field type is built on. -/
inductive BaseType
  | primitive (p : Primitive)
  | generic (name : String)
  | named (target : TypeName)
  deriving DecidableEq, Repr

/-- A field type: an array, if it has a length, of pointers to a base type.  All its pointers are
constant or none is. -/
structure FieldType where
  base : BaseType
  /-- How many pointers lead to the base type.  A declared type never has less than none. -/
  pointers : Int
  /-- The length as it was recorded; in metadata texts a positive whole number. -/
  array : Option Value
  isConst : Bool
  /-- A generic parameter noted with a type that is built on something else.  A declared type has
  none. -/
  parameter : Option String
  deriving DecidableEq, Repr

namespace FieldType

def ofBase (base : BaseType) : FieldType := ⟨base, 0, none, false, none⟩

def ofPrimitive (p : Primitive) : FieldType := ofBase (.primitive p)

def withPointers (t : FieldType) (n : Int) : FieldType := { t with pointers := n }

/-- The definition the type refers to, as named in code. -/
def target? (t : FieldType) : Option TypeName :=
  match t.base with
  | .named n => some n
  | _ => none

/-- The generic parameter the type is built on, or that is noted with it. -/
def generic? (t : FieldType) : Option String :=
  match t.base with
  | .generic name => some name
  | _ => t.parameter

/-- The category of the definition the type refers to. -/
def category? (t : FieldType) : Option Category := t.target?.map (·.category)

def isPrimitive (t : FieldType) : Bool :=
  match t.base with
  | .primitive _ => true
  | _ => false

def isDelegate (t : FieldType) : Bool := t.category? == some .delegate

def isWinrtDelegate (t : FieldType) : Bool := t.isDelegate && t.target?.any (·.winrt)

/-- Whether the base type is a delegate that is a plain function pointer. -/
def isCallback (t : FieldType) : Bool := t.isDelegate && !t.isWinrtDelegate

def refersToNested (t : FieldType) : Bool := t.target?.any (·.place.isNested)

/-- The top-level definitions the type refers to. -/
def dependencies (t : FieldType) : List Place :=
  if t.refersToNested then [] else t.target?.toList.map (·.place)

def kind (t : FieldType) : String :=
  match t.base with
  | .primitive p => p.name
  | .generic _ => "generic"
  | .named n => n.category.name

/-- Whether two lengths are the same: both missing, or equal in value. -/
def sameLength : Option Value → Option Value → Bool
  | some m, some n => m.same n
  | none, none => true
  | _, _ => false

/-- Whether two types are the same, whatever the names under which code declares definitions. -/
def same (a b : FieldType) : Bool :=
  a.kind = b.kind && a.pointers = b.pointers && sameLength a.array b.array &&
    a.generic? = b.generic? && a.isConst = b.isConst &&
    a.target?.map (·.place) = b.target?.map (·.place)

def shown (t : FieldType) : String :=
  let parts := [t.kind] ++ t.target?.toList.map (·.qualifiedName) ++
    t.generic?.toList.filter (· ≠ "") ++
    (if t.pointers = 0 then [] else ["pointers=" ++ toString t.pointers]) ++
    t.array.toList.map fun n => "array=" ++ n.plain
  "SemanticType(" ++ ", ".intercalate parts ++ ")"

end FieldType

end Bindery
