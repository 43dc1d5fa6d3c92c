import Bindery.FieldType.Resolution
/-!
# Blittable types

A type is blittable if its values can be duplicated by copying their bytes.  A struct is if all its
stored fields are; enumerations and plain callbacks are; interfaces, classes and WinRT delegates are
not.  Whatever is behind a pointer does not matter, except that the recorded pointers of a delegate
are no pointers.

Structs are followed through their fields.  Each step leaves fewer definitions that have not been
entered, so the search ends; a struct met inside itself is an error.
-/

namespace Bindery

namespace FieldType

/-- The type without the pointers recorded for a delegate. -/
def fixDelegate (t : FieldType) : FieldType :=
  if t.isDelegate then t.withPointers 0 else t

/-- Whether a base type other than a struct is blittable. -/
def simpleBlittable (t : FieldType) : Bool :=
  match t.base with
  | .primitive p => p != .string && p != .object
  | .generic _ => false
  | .named n =>
    match n.category with
    | .struct => false
    | .enum => true
    | .delegate => !n.winrt
    | .interface | .runtimeClass => false

end FieldType

/-- Whether a definition other than a struct is blittable. -/
def Definition.simpleBlittable (d : Definition) : Bool :=
  d.category = .enum || (d.category = .delegate && !d.winrt)

theorem length_erase_lt {α : Type} [BEq α] [LawfulBEq α] {a : α} {l : List α} (h : a ∈ l) :
    (l.erase a).length < l.length := by
  rw [List.length_erase_of_mem h]
  exact Nat.sub_lt (List.length_pos_of_mem h) Nat.one_pos

namespace Registry

variable (reg : Registry)

/-- Whether the definition at a place is blittable, given the definitions that are not being
looked at already. -/
def blittableWithin (unvisited : List Place) (p : Place) : Except Error Bool :=
  match reg.find? p with
  | none => .error (.unknownType p.qualifiedName .bare)
  | some d =>
    if d.category ≠ .struct then .ok d.simpleBlittable
    else if _h : p ∈ unvisited then
      d.fields.allM fun f =>
        match f.kind with
        | .literal _ => .ok true
        | .stored type => do
          let t ← reg.resolveStored (.of p [] none) f type
          let t := t.fixDelegate
          if 0 < t.pointers then return true
          match t.base with
          | .named n =>
            if n.category = .struct then blittableWithin (unvisited.erase p) n.place
            else return t.simpleBlittable
          | _ => return t.simpleBlittable
    else .error (.containsItself p.qualifiedName)
termination_by unvisited.length
decreasing_by exact length_erase_lt _h

def isBlittable (p : Place) : Except Error Bool := reg.blittableWithin reg.places p

end Registry

def FieldType.isBlittable (reg : Registry) (t : FieldType) : Except Error Bool :=
  if 0 < t.pointers then .ok true
  else
    match t.base with
    | .named n => if n.category = .struct then reg.isBlittable n.place else .ok t.simpleBlittable
    | _ => .ok t.simpleBlittable

end Bindery
