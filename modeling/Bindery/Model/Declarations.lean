import Bindery.Code.Constant
import Bindery.Code.Declaration
import Bindery.FieldType.Code
import Bindery.Model.Basic
/-!
# The declarations of a model

Which declarations a model gets depends on its shape: a constant alone for an identity, the body and
the nested models for a union, the constants as well for a plain struct, and all operations for a
full one.  A full struct can be copied if all its fields are blittable, and has a runtime type if it
has a signature.
-/

namespace Bindery.Model

open Code (Head Declaration Comparison)

/-! ### Parts -/

/-- The declared name with its generic parameters. -/
def head (m : Model) : Head := ⟨m.name.name, m.generics⟩

/-- How the field at an index is reached. -/
def accessor (m : Model) (index : Nat) (name : String) : String :=
  if m.isTypedef then toString index else name

def fieldCodes (m : Model) : List (String × String) :=
  m.fields.map fun (name, t) => (name, t.fieldCode m.name.space)

/-- The types of the fields at call boundaries, and one marker for each generic parameter. -/
def abiEntries (reg : Registry) (m : Model) : Except Error (List String) := do
  let types ← m.fields.mapM fun (_, t) => t.abiCode reg m.name.space
  return types ++ m.generics.map fun p => "::std::marker::PhantomData<" ++ p ++ ">"

def defaults (reg : Registry) (m : Model) : Except Error (List (String × String)) :=
  m.fields.mapM fun (name, t) => return (name, ← t.defaultCode reg)

def constantCodes (m : Model) : Except Error (List (String × String)) :=
  m.constants.mapM fun (name, c) => return (Code.identifier name, ← c.code)

/-- The fields that are shown, with their labels.  Callbacks have nothing to show. -/
def debugEntries (m : Model) : List (String × String) :=
  (m.fields.mapIdx fun k (name, t) => (t, Code.bare name, m.accessor k name)).filterMap
    fun (t, entry) => if t.isCallback then none else some entry

def comparisons (m : Model) : List Comparison :=
  m.fields.mapIdx fun k (name, t) => ⟨m.accessor k name, t.isCallback⟩

def constantsDeclaration (m : Model) : Except Error (List Declaration) :=
  if m.constants.isEmpty then .ok []
  else return [.constants m.head (← m.constantCodes)]

def structDeclaration (m : Model) : Declaration := .struct m.head m.isTypedef m.fieldCodes

/-! ### Declarations -/

/-- The declarations of a model without those of its nested models. -/
def ownDeclarations (reg : Registry) (m : Model) : Except Error (List Declaration) :=
  match m.shape with
  | .constantOnly => .ok [.guidConstant m.name.name m.guid]
  | .union => .ok [.union m.head m.fieldCodes]
  | .plain => return m.structDeclaration :: (← m.constantsDeclaration)
  | .full => do
    let abi ← m.abiEntries reg
    let constants ← m.constantsDeclaration
    let defaults ← m.defaults reg
    let copy ← m.allBlittable reg
    return [m.structDeclaration, .abiStruct m.head abi] ++ constants ++
      [.abiImpl m.head, .defaultImpl m.head m.isTypedef defaults, .debugImpl m.head m.debugEntries,
        .partialEqImpl m.head m.comparisons, .eqImpl m.head] ++
      (if copy then [.copyImpl m.head] else []) ++
      m.signature.toList.map (.runtimeTypeImpl m.head)

mutual

/-- The declarations of a model and of its nested models. -/
def declarations (reg : Registry) : Model → Traced (List Declaration)
  | ⟨name, layout, generics, fields, constants, signature, isTypedef, guid, nested, shape⟩ => do
    Traced.tell ("Emitting " ++ name.qualifiedName ++ " as " ++ shape.name)
    let own ← ownDeclarations reg
      ⟨name, layout, generics, fields, constants, signature, isTypedef, guid, nested, shape⟩
    if shape = .constantOnly then return own
    else return own ++ (← declarationsAll reg nested)

def declarationsAll (reg : Registry) : List Model → Traced (List Declaration)
  | [] => return []
  | m :: ms => return (← declarations reg m) ++ (← declarationsAll reg ms)

end

end Bindery.Model
