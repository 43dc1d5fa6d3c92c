import Bindery.FieldType.Signature
import Bindery.Model.Basic
/-!
# Building models

The model of a struct or union is made from its definition.  Nested definitions come first: each
gets the name of the enclosing one with its index, so that fields can refer to it.  Then the fields
are resolved and put into final form.
-/

namespace Bindery

/-- The attribute that marks a type as a synonym: its fields go by position. -/
def typedefAttribute : String := "NativeTypedef"

/-- The name in code of the nested definition with an index. -/
def TypeName.nestedName (outer : TypeName) (index : Nat) (d : Definition) : TypeName where
  place := outer.place.child d.name
  category := d.category
  winrt := d.winrt
  space := outer.space
  name := outer.name ++ "_" ++ toString index

def Definition.constants (d : Definition) : List (String × Constant) :=
  d.fields.filterMap fun f =>
    match f.kind with
    | .literal (some c) => some (f.name, c)
    | _ => none

namespace Registry

variable (reg : Registry)

/-- The stored fields of a definition by identifier, with resolved types. -/
def storedFields (scope : Scope) (fields : List Field) : Traced FieldList :=
  fields.filterMapM fun f =>
    match f.kind with
    | .literal _ => return none
    | .stored type => return some (Code.memberIdentifier f.name, ← reg.resolveTraced scope f type)

/-- Nested definitions must not be inside a generic one, and have a generated name. -/
def checkNested (outer : Definition) (p : Place) (d : Definition) : Except Error Unit :=
  if !outer.generics.isEmpty then .error (.nestedInGeneric d.name p.qualifiedName)
  else if d.name.toList.head? ≠ some '_' then .error (.nestedNotAnonymous d.name p.qualifiedName)
  else .ok ()

/-- The model of a definition under the name `name`, given its nested models in order of
declaration. -/
def assemble (name : TypeName) (d : Definition) (signature : Option String) (nested : List Model) :
    Traced Model := do
  let scope := Scope.of name.place (nested.map fun m => (m.metadataName, m.name)) (some name.space)
  let nested := nested.mergeSort fun a b => decide (a.metadataName ≤ b.metadataName)
  let stored ← reg.storedFields scope d.fields
  let guid ← Guid.ofDefinition d
  let fields := FieldList.run (FieldList.standardPasses guid) stored
  let shape := Shape.of guid d.explicitLayout nested
  Traced.tell ("Built " ++ name.qualifiedName ++ ": shape=" ++ shape.name ++
    " fields=" ++ Text.quotedList (fields.map (·.1)) ++
    " constants=" ++ Text.quotedList (d.constants.map (·.1)) ++
    " nested=" ++ Text.quotedList (nested.map (·.metadataName)))
  return {
    name, fields, signature, guid, nested, shape
    explicitLayout := d.explicitLayout
    generics := d.generics
    constants := d.constants
    isTypedef := (d.attribute? typedefAttribute).isSome }

mutual

/-- The model of a definition under the name `name`. -/
def buildDefinition (name : TypeName) : Definition → Traced Model
  | ⟨dname, category, fields, attributes, explicitLayout, winrt, generics, underlying, enumValues,
      file, line, nested⟩ => do
    let d : Definition := ⟨dname, category, fields, attributes, explicitLayout, winrt, generics,
      underlying, enumValues, file, line, nested⟩
    if category ≠ .struct then
      Traced.fail (.notAggregate name.place.qualifiedName category)
    else
      let signature ← if name.winrt then some <$> reg.structSignature name else pure none
      let models ← buildNested name d 0 nested
      reg.assemble name d signature models

/-- The models of definitions nested in `outer`, from the given index on. -/
def buildNested (name : TypeName) (outer : Definition) (index : Nat) :
    List Definition → Traced (List Model)
  | [] => return []
  | d :: rest => do
    checkNested outer name.place d
    let nestedName := name.nestedName index d
    Traced.tell ("Nested " ++ d.name ++ " of " ++ name.qualifiedName ++ " -> " ++ nestedName.name)
    let model ← buildDefinition nestedName d
    return model :: (← buildNested name outer (index + 1) rest)

end

def build (name : TypeName) : Traced Model :=
  match reg.find? name.place with
  | some d => reg.buildDefinition name d
  | none => .fail (.unknownType name.place.qualifiedName .bare)

end Registry

end Bindery
