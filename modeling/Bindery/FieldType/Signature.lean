import Bindery.FieldType.Blittable
import Bindery.Guid
/-!
# Runtime signatures

The text by which a type is identified at run time.  The signature of a struct is made of its name
and the signatures of its stored fields; enumerations, interfaces and delegates have signatures of
their own.  Pointers, arrays and all other types have none.
-/

namespace Bindery

/-- The primitive type that holds an enumeration: that of the name, unless it is missing or not
primitive. -/
def Definition.underlyingPrimitive (d : Definition) : Primitive :=
  match d.underlying with
  | none | some "" => .i32
  | some name => (Primitive.ofName? name).getD .i32

namespace Registry

variable (reg : Registry)

/-- The signature of a type that refers to a definition other than a struct. -/
def signatureOfName (shown : String) (n : TypeName) (d : Definition) : Except Error String :=
  match n.category with
  | .enum =>
    match d.underlyingPrimitive.signature? with
    | some s => .ok ("enum(" ++ n.qualifiedName ++ ";" ++ s ++ ")")
    | none => .error (.noUnderlyingSignature d.underlyingPrimitive)
  | .interface => return "\x7b" ++ (← Guid.ofDefinition d).text ++ "\x7d"
  | .delegate => return "delegate(\x7b" ++ (← Guid.ofDefinition d).text ++ "\x7d)"
  | .struct | .runtimeClass => .error (.noSignature shown)

/-- The signature of a field type, given the signatures of structs. -/
def signatureWith (structSignature : TypeName → Except Error String) (t : FieldType) :
    Except Error String :=
  if 0 < t.pointers ∨ t.array.isSome then .error (.noSignature t.shown)
  else
    match t.base with
    | .primitive p =>
      match p.signature? with
      | some s => .ok s
      | none => .error (.noSignature t.shown)
    | .generic _ => .error (.noSignature t.shown)
    | .named n =>
      if n.category = .struct then structSignature n
      else
        match reg.find? n.place with
        | some d => signatureOfName t.shown n d
        | none => .error (.noSignature t.shown)

/-- The signature of a struct under its name in code, given the definitions that are not being
looked at already.  Nothing stops a search that comes to one of the others, so it never ends. -/
def structSignatureWithin (unvisited : List Place) (n : TypeName) : Except Error String :=
  match reg.find? n.place with
  | none => .error (.unknownType n.qualifiedName .bare)
  | some d =>
    if _h : n.place ∈ unvisited then do
      let parts ← d.fields.filterMapM fun f =>
        match f.kind with
        | .literal _ => .ok none
        | .stored type => do
          let t ← reg.resolveStored (.of n.place [] none) f type
          return some (← reg.signatureWith (structSignatureWithin (unvisited.erase n.place)) t)
      return "struct(" ++ n.qualifiedName ++ ";" ++ ";".intercalate parts ++ ")"
    else .error .endlessSignature
termination_by unvisited.length
decreasing_by exact length_erase_lt _h

def structSignature (n : TypeName) : Except Error String :=
  reg.structSignatureWithin reg.places n

end Registry

def FieldType.signature (reg : Registry) (t : FieldType) : Except Error String :=
  reg.signatureWith reg.structSignature t

end Bindery
