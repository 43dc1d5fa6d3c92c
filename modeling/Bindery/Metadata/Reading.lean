import Bindery.Metadata.Registry
import Bindery.Source.Fault
/-!
# Reading metadata

The registry of a metadata text: its source tree is read, and each definition is entered in the
order of the text.  A definition is entered before those nested in it are looked at; its own fields
are looked at first of all.
-/

namespace Bindery

open Source

namespace Source

/-! ### Parts of a definition -/

/-- The value of an argument; a bare name stands for itself. -/
def Argument.toValue : Argument → Value
  | bare name => .text name
  | literal v => v

def AttributeSource.attribute (a : AttributeSource) : Attribute :=
  .declared a.name ((a.args.map (·.value)).getD [] |>.map (·.value.toValue))

/-- Whether a literal can be the length of an array: a positive whole number. -/
def isLength : Value → Bool
  | .int n => 0 < n
  | _ => false

/-- The declared type.  The length of an array is checked before its element. -/
def TypeSource.typeExpr (file : String) : TypeSource → Except Error TypeExpr
  | named name => .ok (.named name.text)
  | pointer _ isConst element => return .pointer isConst (← element.typeExpr file)
  | array line element length =>
    if isLength length then return .array (← element.typeExpr file) length
    else .error (.arrayLength file line)

/-- The field that a member declares, if it is one. -/
def Member.field? (file : String) : Member → Except Error (Option Field)
  | field name type => return some ⟨name.value, .stored (← type.typeExpr file), some name.line⟩
  | constant line name type value =>
    return some ⟨name, .literal (some ⟨value.value, type⟩), some line⟩
  | nested .. => return none

def fieldsOf (file : String) (members : List Member) : Except Error (List Field) :=
  return (← members.mapM (·.field? file)).filterMap id

/-! ### Definitions -/

/-- The struct or union of a heading and members, without its nested definitions. -/
def Heading.definition (file : String) (attributes : List AttributeSource) (winrt : Bool)
    (h : Heading) (members : List Member) : Except Error Definition := do
  let generics := (h.generics.map (·.value)).getD []
  if winrt && !generics.isEmpty then throw (.genericWinrt file h.line h.name)
  return {
    name := h.name
    category := .struct
    fields := ← fieldsOf file members
    attributes := attributes.map (·.attribute)
    explicitLayout := h.isUnion
    winrt, generics
    underlying := none
    enumValues := []
    file := some file
    line := some h.line
    nested := [] }

def Bodiless.category : Bodiless → Category
  | delegate => .delegate
  | interface => .interface
  | runtimeClass => .runtimeClass

/-- The definition of a body, without nested definitions. -/
def Body.definition (file : String) (attributes : List AttributeSource) (winrt : Bool) :
    Body → Except Error Definition
  | aggregate heading members => heading.definition file attributes winrt members
  | enumeration line name underlying items => return {
      name
      category := .enum
      fields := []
      attributes := attributes.map (·.attribute)
      explicitLayout := false
      winrt
      generics := []
      underlying := some (underlying.getD "i32")
      enumValues := items.map fun item => (item.name.value, item.number.getD .none)
      file := some file
      line := some line
      nested := [] }
  | bodiless kind line name => return {
      name
      category := kind.category
      fields := []
      attributes := attributes.map (·.attribute)
      explicitLayout := false
      winrt
      generics := []
      underlying := none
      enumValues := []
      file := some file
      line := some line
      nested := [] }

/-- The definitions nested in the one at `p`, given those that come earlier in it. -/
def nestedOf (file : String) (winrt : Bool) (p : Place) (earlier : List Definition) :
    List Member → Traced (List Definition)
  | [] => return earlier
  | .nested attributes heading members :: rest => do
    let d ← heading.definition file attributes winrt members
    if earlier.any (·.name = d.name) then
      Traced.fail (.duplicateNested d.name p.qualifiedName)
    else
      Traced.tell ("Nested definition " ++ (p.child d.name).qualifiedName)
      let inner ← nestedOf file winrt (p.child d.name) [] members
      nestedOf file winrt p (earlier ++ [{ d with nested := inner }]) rest
  | .field .. :: rest => nestedOf file winrt p earlier rest
  | .constant .. :: rest => nestedOf file winrt p earlier rest

def Body.members : Body → List Member
  | aggregate _ members => members
  | _ => []

/-! ### Whole texts -/

/-- The registry with one more definition of the namespace `space`. -/
def DefinitionSource.enter (file space : String) (reg : Registry) (source : DefinitionSource) :
    Traced Registry := do
  let d ← source.body.definition file source.attributes source.winrt.isSome
  let _ ← reg.add space d
  let place : Place := ⟨space, d.name, []⟩
  Traced.tell ("Definition " ++ place.qualifiedName ++ " (" ++ d.category.name ++ ")")
  let nested ← nestedOf file d.winrt place [] source.body.members
  reg.add space { d with nested }

/-- The registry with the definitions of one more namespace block. -/
def NamespaceSource.enter (file : String) (reg : Registry) (source : NamespaceSource) :
    Traced Registry :=
  source.definitions.foldlM (DefinitionSource.enter file source.name.text) reg

end Source

namespace Registry

def ofDocument (file : String) (document : Document) : Traced Registry := do
  let reg ← document.foldlM (NamespaceSource.enter file) empty
  Traced.tell ("Loaded " ++ toString reg.entries.length ++ " definitions from " ++ file ++
    " in namespaces " ++ Text.quotedList reg.spaces)
  return reg

/-- The name of a text that comes from no file. -/
def unnamedFile : String := "<string>"

def ofText (file text : String) : Traced Registry :=
  let cs := text.toList
  match Source.read cs with
  | .ok document => ofDocument file document
  | .error left => .fail (.malformed file (faultPosition cs left))

end Registry

end Bindery
