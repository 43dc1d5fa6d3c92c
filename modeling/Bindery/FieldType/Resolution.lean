import Bindery.FieldType.Basic
import Bindery.Metadata.Registry
/-!
# Resolving declared types

A declared type is resolved in the scope of a definition.  A name without dots is, in this order, a
primitive type, a generic parameter of the definition or one that encloses it, a nested definition
with a name of its own in code, a definition nested in this one, a definition of the namespace in
question, and at last the only definition of that name anywhere.  A name with dots is looked up as
it is written.

A pointer may point to anything but an array, and an array holds anything but arrays.
-/

namespace Bindery

/-- Where names are resolved: the definition that uses them, the names in code of definitions nested
in it, and the namespace looked at first. -/
structure Scope where
  owner : Place
  nested : List (String × TypeName)
  space : String

/-- The scope of a definition.  Without a namespace it is that of the definition. -/
def Scope.of (owner : Place) (nested : List (String × TypeName)) (space : Option String) : Scope where
  owner
  nested
  space :=
    match space with
    | some s => if s = "" then owner.space else s
    | none => owner.space

namespace Registry

variable (reg : Registry)

/-- A name split at its last dot, if it has one. -/
def splitLast? (name : String) : Option (String × String) :=
  let cs := name.toList
  if '.' ∈ cs then
    let last := (cs.reverse.takeWhile (· ≠ '.')).reverse
    some (.ofList (cs.take (cs.length - last.length - 1)), .ofList last)
  else none

/-- The top-level definition of a namespace and a name, under its own name. -/
def lookupName? (space name : String) : Option TypeName :=
  (reg.lookup? space name).map (.ofDefinition ⟨space, name, []⟩)

/-- The definition nested in the one at a place, under its own name. -/
def nestedName? (p : Place) (name : String) : Option TypeName :=
  ((reg.find? p).bind fun d => d.nested.find? (·.name = name)).map (.ofDefinition (p.child name))

/-- Whether a name is a generic parameter of the definition at a place or one that encloses it. -/
def isGeneric (p : Place) (name : String) : Bool :=
  (reg.enclosing p).any (name ∈ ·.generics)

/-- The only definition of a name, whatever its namespace. -/
def onlyNamed (use : TypeUse) (name : String) : Except Error TypeName :=
  match reg.named name with
  | [] => .error (.unknownType name use)
  | [p] =>
    match reg.find? p with
    | some d => .ok (.ofDefinition p d)
    | none => .error (.unknownType name use)
  | ps => .error (.ambiguousType name use (ps.map (·.qualifiedName)))

def resolveName (scope : Scope) (use : TypeUse) (name : String) : Except Error BaseType :=
  match Primitive.ofName? name with
  | some p => .ok (.primitive p)
  | none =>
    match splitLast? name with
    | some (space, last) =>
      match reg.lookupName? space last with
      | some n => .ok (.named n)
      | none => .error (.unknownType name use)
    | none =>
      if reg.isGeneric scope.owner name then .ok (.generic name)
      else
        match (scope.nested.lookup name).or
            ((reg.nestedName? scope.owner name).or (reg.lookupName? scope.space name)) with
        | some n => .ok (.named n)
        | none => (reg.onlyNamed use name).map .named

def resolveExpr (scope : Scope) (use : TypeUse) : TypeExpr → Except Error FieldType
  | .named name => (reg.resolveName scope use name).map .ofBase
  | .pointer isConst element => do
    let t ← resolveExpr scope use element
    if t.array.isSome then throw (.pointerToArray use)
    return { t with pointers := t.pointers + 1, isConst := t.isConst || isConst }
  | .array element length => do
    let t ← resolveExpr scope use element
    if t.array.isSome then throw (.nestedArray use)
    return { t with array := length.present? }

/-- Where a field uses its type. -/
def useOf (p : Place) (f : Field) : TypeUse := .field f.name p.qualifiedName

/-- The type of a stored field.  Nothing is `void` unless behind a pointer. -/
def resolveStored (scope : Scope) (f : Field) (type : TypeExpr) : Except Error FieldType := do
  let use := useOf scope.owner f
  let t ← reg.resolveExpr scope use type
  if t.base = .primitive .void ∧ t.pointers = 0 then throw (.voidByValue use)
  return t

def resolve (scope : Scope) (f : Field) : Except Error FieldType :=
  match f.kind with
  | .literal _ => .error (.literalStorage f.name)
  | .stored type => reg.resolveStored scope f type

/-- `resolveStored`, telling the type that was found. -/
def resolveTraced (scope : Scope) (f : Field) (type : TypeExpr) : Traced FieldType := do
  let t ← reg.resolveStored scope f type
  Traced.tell ("Resolved " ++ (useOf scope.owner f).text ++ ": " ++ type.text ++ " -> " ++ t.shown)
  return t

end Registry

end Bindery
