import Bindery.FieldType.Blittable
import Bindery.Model.Fields
/-!
# Models

Everything that code needs to know about one struct or union and the definitions nested in it.
-/

namespace Bindery

/-- What is written for a model. -/
inductive Shape
  /-- The identity only. -/
  | constantOnly
  /-- All fields share their storage. -/
  | union
  /-- A union is somewhere inside: no derived operations. -/
  | plain
  /-- A struct with all derived operations. -/
  | full
  deriving DecidableEq, Repr

def Shape.name : Shape → String
  | constantOnly => "constant_only"
  | union => "union"
  | plain => "plain_no_derive"
  | full => "full_aggregate"

/-- A struct or union ready to be written.  The nested models are in the order of their names in
metadata. -/
structure Model where
  name : TypeName
  explicitLayout : Bool
  generics : List String
  fields : FieldList
  constants : List (String × Constant)
  signature : Option String
  isTypedef : Bool
  guid : Guid
  nested : List Model
  shape : Shape

namespace Place

def name (p : Place) : String := p.steps.getLast?.getD p.root

end Place

namespace Model

def metadataName (m : Model) : String := m.name.place.name

def fieldNames (m : Model) : List String := m.fields.map (·.1)

def allBlittable (reg : Registry) (m : Model) : Except Error Bool :=
  m.fields.allM fun (_, t) => t.isBlittable reg

/-! ### Nested models -/

mutual

/-- A model, then each nested model, depth first. -/
def walk : Model → List Model
  | ⟨name, layout, generics, fields, constants, signature, isTypedef, guid, nested, shape⟩ =>
    ⟨name, layout, generics, fields, constants, signature, isTypedef, guid, nested, shape⟩ ::
      walkAll nested

def walkAll : List Model → List Model
  | [] => []
  | m :: ms => m.walk ++ walkAll ms

end

mutual

/-- Whether a union is nested in a model, at any depth. -/
def hasNestedUnion : Model → Bool
  | ⟨_, _, _, _, _, _, _, _, nested, _⟩ => anyUnion nested

/-- Whether one of several models is a union or has one nested in it. -/
def anyUnion : List Model → Bool
  | [] => false
  | m :: ms => m.explicitLayout || m.hasNestedUnion || anyUnion ms

end

/-! ### Dependencies -/

mutual

/-- The top-level definitions that the fields of a model and of its nested models refer to, as often
as they do. -/
def dependencies : Model → List Place
  | ⟨_, _, _, fields, _, _, _, _, nested, _⟩ =>
    fields.flatMap (·.2.dependencies) ++ dependenciesAll nested

def dependenciesAll : List Model → List Place
  | [] => []
  | m :: ms => m.dependencies ++ dependenciesAll ms

end

/-- The top-level definitions that a model or its nested models hold by value. -/
def valueDependencies (m : Model) : List Place :=
  m.walk.flatMap fun n => n.fields.flatMap fun (_, t) => if t.pointers = 0 then t.dependencies else []

end Model

/-- The shape of a model: an identity makes it a constant, explicit layout a union, and a union
nested in it takes away the derived operations. -/
def Shape.of (guid : Guid) (explicitLayout : Bool) (nested : List Model) : Shape :=
  if !guid.isAbsent then .constantOnly
  else if explicitLayout then .union
  else if Model.anyUnion nested then .plain
  else .full

end Bindery
