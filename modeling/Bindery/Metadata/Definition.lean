import Bindery.Value
/-!
# Definitions

What metadata declares: structs, unions, enumerations, delegates, interfaces and classes, with their
fields, attributes and nested definitions, before any name has been resolved.
-/

namespace Bindery

/-! ### Parts of a definition -/

/-- The kinds of definition.  A union is a struct with explicit layout. -/
inductive Category
  | struct | enum | delegate | interface | runtimeClass
  deriving DecidableEq, Repr

def Category.name : Category → String
  | struct => "struct"
  | enum => "enum"
  | delegate => "delegate"
  | interface => "interface"
  | runtimeClass => "class"

/-- A declared type.  The length of an array is a literal as it was recorded; if it is absent, the
array counts as its element. -/
inductive TypeExpr
  | named (name : String)
  | pointer (isConst : Bool) (element : TypeExpr)
  | array (element : TypeExpr) (length : Value)
  deriving DecidableEq, Repr

def TypeExpr.text : TypeExpr → String
  | named name => name
  | pointer isConst element => (if isConst then "*const " else "*mut ") ++ element.text
  | array element length => "[" ++ element.text ++ "; " ++ length.plain ++ "]"

/-- A literal with the name of its declared type. -/
structure Constant where
  value : Value
  typeName : String
  deriving DecidableEq, Repr

/-- Constants are equal if their values are, in whatever form, and their types have one name. -/
def Constant.same (a b : Constant) : Bool :=
  a.value.same b.value && a.typeName = b.typeName

/-- What a field is: stored with a type, or a constant, possibly without a value. -/
inductive FieldKind
  | stored (type : TypeExpr)
  | literal (constant : Option Constant)
  deriving DecidableEq, Repr

/-- A field, with the line on which it was declared. -/
structure Field where
  name : String
  kind : FieldKind
  line : Option Nat
  deriving DecidableEq, Repr

structure Attribute where
  name : String
  args : List Value
  deriving DecidableEq, Repr

/-- The name of an attribute without the ending `Attribute`, which is never significant. -/
def Attribute.shortName (name : String) : String :=
  let ending := "Attribute".toList
  let cs := name.toList
  if ending.isSuffixOf cs && cs.length != ending.length then
    .ofList (cs.take (cs.length - ending.length))
  else name

/-- The attribute with a declared name. -/
def Attribute.declared (name : String) (args : List Value) : Attribute :=
  ⟨shortName name, args⟩

/-! ### Definitions and where they stand -/

/-- A definition.  Every column is kept for every category. -/
structure Definition where
  name : String
  category : Category
  fields : List Field
  attributes : List Attribute
  explicitLayout : Bool
  winrt : Bool
  generics : List String
  underlying : Option String
  enumValues : List (String × Value)
  file : Option String
  line : Option Nat
  nested : List Definition

namespace Definition

/-- The first attribute of a name. -/
def attribute? (d : Definition) (name : String) : Option Attribute :=
  d.attributes.find? (·.name = name)

/-- The definition reached by following the names of nested definitions. -/
def find? : Definition → List String → Option Definition
  | d, [] => some d
  | d, step :: steps => (d.nested.find? (·.name = step)).bind (find? · steps)

end Definition

/-- The place of a definition: its namespace, the top-level definition, and the nested definitions
stepped into.  A place identifies a definition. -/
structure Place where
  space : String
  root : String
  steps : List String
  deriving DecidableEq, Repr

namespace Place

def child (p : Place) (name : String) : Place :=
  { p with steps := p.steps ++ [name] }

def isNested (p : Place) : Bool := !p.steps.isEmpty

/-- A name after its namespace; the empty namespace is not written. -/
def qualify (space name : String) : String :=
  if space = "" then name else space ++ "." ++ name

/-- The full name: namespace, top-level definition and nested definitions. -/
def qualifiedName (p : Place) : String :=
  ".".intercalate (qualify p.space p.root :: p.steps)

end Place

mutual

/-- The places of a definition that stands at `p` and of everything nested in it, outermost first. -/
def Definition.places (p : Place) : Definition → List Place
  | ⟨_, _, _, _, _, _, _, _, _, _, _, nested⟩ => p :: Definition.nestedPlaces p nested

def Definition.nestedPlaces (p : Place) : List Definition → List Place
  | [] => []
  | d :: ds => d.places (p.child d.name) ++ Definition.nestedPlaces p ds

end

end Bindery
