import Bindery.Json
import Bindery.Model.Basic
/-!
# Models as JSON documents

A model with its fields, constants and nested models, for other programs to read.
-/

namespace Bindery

/-- The entries that describe a field type. -/
def FieldType.entries (t : FieldType) : List (String × Json) :=
  [("kind", .text t.kind), ("type", .ofText? (t.target?.map (·.qualifiedName))),
    ("generic", .ofText? t.generic?), ("pointers", .int t.pointers), ("const", .bool t.isConst),
    ("array", t.array.elim .null Json.ofValue)]

namespace Model

mutual

def document : Model → Json
  | ⟨name, _, _, fields, constants, signature, isTypedef, guid, nested, shape⟩ => .object [
      ("name", .text name.name),
      ("namespace", .text name.space),
      ("shape", .text shape.name),
      ("guid", if guid.isAbsent then .null else .text guid.text),
      ("is_typedef", .bool isTypedef),
      ("signature", .text (signature.getD "")),
      ("fields", .array (fields.map fun (name, t) => .object (("name", .text name) :: t.entries))),
      ("constants", .array (constants.map fun (name, c) => .object
        [("name", .text name), ("value", .ofValue c.value), ("type", .text c.typeName)])),
      ("nested", .object (nestedDocuments nested))]

/-- The documents of nested models under their names in metadata. -/
def nestedDocuments : List Model → List (String × Json)
  | [] => []
  | m :: ms => (m.metadataName, m.document) :: nestedDocuments ms

end

end Model

end Bindery
