import Bindery.Traced
/-!
# The registry of definitions

Top-level definitions in the order in which they were added, at most one for each namespace and
name.  A nested definition is reached only through the one that encloses it.
-/

namespace Bindery

/-- A top-level definition and its namespace. -/
structure Entry where
  space : String
  definition : Definition

def Entry.place (e : Entry) : Place := ⟨e.space, e.definition.name, []⟩

/-- All definitions of a metadata source. -/
structure Registry where
  entries : List Entry

namespace Registry

def empty : Registry := ⟨[]⟩

/-! ### Finding definitions -/

/-- The top-level definition of a namespace and a name. -/
def lookup? (reg : Registry) (space name : String) : Option Definition :=
  (reg.entries.find? fun e => e.space = space && e.definition.name = name).map (·.definition)

def find? (reg : Registry) (p : Place) : Option Definition :=
  (reg.lookup? p.space p.root).bind (·.find? p.steps)

/-- The top-level definitions with a name, whatever their namespace. -/
def named (reg : Registry) (name : String) : List Place :=
  (reg.entries.filter (·.definition.name = name)).map (·.place)

def topLevel (reg : Registry) : List Place := reg.entries.map (·.place)

/-- Every place, each definition before those nested in it. -/
def places (reg : Registry) : List Place :=
  reg.entries.flatMap fun e => e.definition.places e.place

/-- The definitions from the one at a place outwards to the top-level one. -/
def enclosing (reg : Registry) (p : Place) : List Definition :=
  ((List.range (p.steps.length + 1)).reverse.filterMap fun k =>
    reg.find? { p with steps := p.steps.take k })

/-- The namespaces in use, sorted, each once. -/
def spaces (reg : Registry) : List String :=
  ((reg.entries.map (·.space)).mergeSort (fun a b => decide (a ≤ b))).eraseDups

/-! ### Adding definitions -/

def add (reg : Registry) (space : String) (d : Definition) : Except Error Registry :=
  if (reg.lookup? space d.name).isSome then
    .error (.duplicateDefinition (Place.qualify space d.name))
  else .ok ⟨reg.entries ++ [⟨space, d⟩]⟩

end Registry

/-- The definition in which the nested one at the end of `steps` also holds `inner`. -/
def Definition.insert (inner : Definition) : List String → Definition → Definition
  | [], d => { d with nested := d.nested ++ [inner] }
  | step :: steps, d =>
    { d with nested := d.nested.map fun n => if n.name = step then insert inner steps n else n }

namespace Registry

/-- The registry with one more definition nested in the one at `p`.  Definitions nested in the same
one have different names. -/
def addNested (reg : Registry) (p : Place) (d : Definition) : Except Error Registry :=
  match reg.find? p with
  | none => .error (.unknownType p.qualifiedName .bare)
  | some outer =>
    if outer.nested.any (·.name = d.name) then
      .error (.duplicateNested d.name p.qualifiedName)
    else .ok ⟨reg.entries.map fun e =>
      if e.space = p.space && e.definition.name = p.root then
        { e with definition := Definition.insert d p.steps e.definition }
      else e⟩

end Registry

end Bindery
