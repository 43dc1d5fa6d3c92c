import Bindery.Source.Tree
/-!
# Outlines

A source tree in uniform shape: each part under the name of its grammar rule, with its names and
literals in their order.
-/

namespace Bindery.Source

/-- A part of a text. -/
inductive Outline
  /-- A rule with the line on which it starts; a rule without any terminal has none. -/
  | rule (name : String) (line : Option Nat) (parts : List Outline)
  | name (text : String)
  | winrt
  | pointer (isConst : Bool)
  | value (v : Value)

namespace Outline

/-- A rule that starts on a line. -/
def onLine (line : Nat) (name : String) (parts : List Outline) : Outline := .rule name (some line) parts

end Outline

def DottedName.outline (n : DottedName) : Outline :=
  .onLine n.first.line "dotted_name" (n.parts.map .name)

def Located.argumentOutline (a : Located Argument) : Outline :=
  .onLine a.line "attribute_arg" [match a.value with | .bare n => .name n | .literal v => .value v]

def AttributeSource.outline (a : AttributeSource) : Outline :=
  .onLine a.line "attribute" <| .name a.name ::
    a.args.toList.map fun args =>
      .onLine args.line "attribute_args" (args.value.map Located.argumentOutline)

def TypeSource.outline (t : TypeSource) : Outline :=
  .onLine t.line "type_expr" [match t with
    | named n => .onLine n.first.line "named_type" [n.outline]
    | .pointer line isConst element =>
      .onLine line "pointer_type" [.pointer isConst, element.outline]
    | array line element length => .onLine line "array_type" [element.outline, .value length]]

/-- The name of a struct or union and its generic parameters. -/
def Heading.outline (h : Heading) : List Outline :=
  .name h.name :: h.generics.toList.map fun g => .onLine g.line "generic_params" (g.value.map .name)

/-- A struct or union with outlined members. -/
def Heading.outlineWith (h : Heading) (members : List Outline) : Outline :=
  .onLine h.line (if h.isUnion then "union_def" else "struct_def") (h.outline ++ members)

mutual

def Member.outline (m : Member) : Outline :=
  .onLine m.line "member" [match m with
    | .field name type => .onLine name.line "field" [.name name.value, type.outline]
    | .constant line name type value =>
      .onLine line "constant" [.name name, .name type, .onLine value.line "literal" [.value value.value]]
    | .nested attributes heading members =>
      .onLine m.line "nested_def"
        (attributes.map AttributeSource.outline ++
          [heading.outlineWith (Member.outlines members)])]

def Member.outlines : List Member → List Outline
  | [] => []
  | m :: ms => m.outline :: Member.outlines ms

end

def EnumItem.outline (e : EnumItem) : Outline :=
  .onLine e.name.line "enum_value" (.name e.name.value :: e.number.toList.map .value)

def Body.outline : Body → Outline
  | aggregate heading members => heading.outlineWith (Member.outlines members)
  | enumeration line name underlying items =>
    .onLine line "enum_def" (.name name :: underlying.toList.map .name ++ items.map EnumItem.outline)
  | bodiless kind line name => .onLine line (kind.keyword ++ "_def") [.name name]

def DefinitionSource.outline (d : DefinitionSource) : Outline :=
  .onLine d.line "definition"
    (d.attributes.map AttributeSource.outline ++ d.winrt.toList.map (fun _ => .winrt) ++
      [d.body.outline])

def NamespaceSource.outline (n : NamespaceSource) : Outline :=
  .onLine n.line "namespace" (n.name.outline :: n.definitions.map DefinitionSource.outline)

def outline (d : Document) : Outline :=
  .rule "start" (d.head?.map (·.line)) (d.map NamespaceSource.outline)

end Bindery.Source
