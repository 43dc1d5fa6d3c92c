import Bindery.Code.Path
import Bindery.Metadata.Definition
/-!
# Types as they are named in code

A definition has a name in metadata; in code it may go under another name and stand in another
module.  Nested definitions do: they have no usable name of their own.
-/

namespace Bindery

/-- A definition with the namespace and the identifier under which code declares it. -/
structure TypeName where
  place : Place
  category : Category
  winrt : Bool
  space : String
  name : String
  deriving DecidableEq, Repr

namespace TypeName

/-- A definition under its own name. -/
def ofDefinition (p : Place) (d : Definition) : TypeName :=
  ⟨p, d.category, d.winrt, p.space, d.name⟩

def qualifiedName (n : TypeName) : String := Place.qualify n.space n.name

/-- The path to the type as written in a module of the namespace `source`. -/
def codePath (n : TypeName) (source : String) : String :=
  Code.itemPath source n.space n.name

def shown (n : TypeName) : String := "TypeName(" ++ Text.quoted n.qualifiedName ++ ")"

end TypeName

end Bindery
