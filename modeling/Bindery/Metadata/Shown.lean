import Bindery.Code.Constant
/-!
# How definitions are shown

The form in which definitions and their parts appear in messages and listings.
-/

namespace Bindery

open Text (quoted)

def Attribute.shown (a : Attribute) : String :=
  "Attribute(name=" ++ quoted a.name ++ ", args=" ++ Value.shownList a.args ++ ")"

def TypeExpr.shown (t : TypeExpr) : String := "TypeExpr(" ++ quoted t.text ++ ")"

def Field.shown (f : Field) : String :=
  "FieldDef(name=" ++ quoted f.name ++
    (match f.kind with
      | .stored type => ", type_expr=" ++ type.shown
      | .literal (some c) => ", constant=" ++ c.shown
      | .literal none => ", constant=None") ++ ")"

/-- The definition at a place as it is shown. -/
def Definition.shownAt (p : Place) (d : Definition) : String :=
  "TypeDef(" ++ quoted p.qualifiedName ++ ", category=" ++ quoted d.category.name ++ ")"

end Bindery
