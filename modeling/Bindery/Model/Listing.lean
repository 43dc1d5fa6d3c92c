import Bindery.Model.Basic
/-!
# Listings of models

A model as an indented tree for reading: a heading with its shape, then its identity, signature,
fields, constants and nested models.
-/

namespace Bindery

def FieldType.listing (t : FieldType) : String :=
  let target := t.target?.toList.map fun n => "type='" ++ n.qualifiedName ++ "'"
  let generic := (t.generic?.toList.filter (· ≠ "")).map fun g => "generic='" ++ g ++ "'"
  let pointers :=
    if t.pointers = 0 then []
    else ["pointers=" ++ toString t.pointers ++ if t.isConst then " const" else ""]
  let array := t.array.toList.map fun n => "array=" ++ n.plain
  ", ".intercalate (["kind=" ++ t.kind] ++ target ++ generic ++ pointers ++ array)

namespace Model

def listingIndent (level : Nat) : String := String.join (List.replicate level "  ")

/-- The lines of a model before those of its nested models, not indented. -/
def ownListing (m : Model) : List String :=
  let marks := [m.shape.name] ++ (if m.isTypedef then ["typedef"] else []) ++
    (if m.explicitLayout then ["explicit layout"] else [])
  ["Struct: " ++ m.name.qualifiedName ++ " [" ++ " | ".intercalate marks ++ "]"] ++
    (if m.guid.isAbsent then [] else ["  Guid: " ++ m.guid.text]) ++
    m.signature.toList.map ("  Signature: " ++ ·) ++
    (m.fields.map fun (name, t) => "  Field: " ++ name ++ " (" ++ t.listing ++ ")") ++
    m.constants.map fun (name, c) =>
      "  Constant: " ++ name ++ " = " ++ c.value.shown ++ " (" ++ c.typeName ++ ")"

mutual

/-- The lines of a model at a level. -/
def listing (level : Nat) : Model → List String
  | ⟨name, layout, generics, fields, constants, signature, isTypedef, guid, nested, shape⟩ =>
    let own := ownListing
      ⟨name, layout, generics, fields, constants, signature, isTypedef, guid, nested, shape⟩
    let heading := if nested.isEmpty then [] else ["  Nested:"]
    (own ++ heading).map (listingIndent level ++ ·) ++ nestedListing level nested

/-- The lines of the models nested in one at a level. -/
def nestedListing (level : Nat) : List Model → List String
  | [] => []
  | m :: ms =>
    (listingIndent level ++ "    [" ++ m.metadataName ++ "]") ::
      (m.listing (level + 3) ++ nestedListing level ms)

end

end Model

end Bindery
