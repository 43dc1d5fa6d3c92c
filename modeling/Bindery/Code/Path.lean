import Bindery.Code.Identifier
/-!
# Modules and paths

A namespace is a chain of nested modules, one for each of its segments.  An item is reached from
another module by going up to the common ancestor and down again.
-/

namespace Bindery.Code

/-- The modules of a namespace, outermost first.  Empty segments have no module. -/
def modulePath (space : String) : List String :=
  (((space.toList.splitOn '.').filter (!·.isEmpty)).map .ofList).map memberIdentifier

/-- The way from one module to another: a step up for each module left, then the modules entered. -/
def route : List String → List String → List String
  | s :: source, t :: target =>
    if s = t then route source target else (s :: source).map (fun _ => "super") ++ t :: target
  | source, target => source.map (fun _ => "super") ++ target

/-- The path to an item of the namespace `target` as written in a module of the namespace `source`. -/
def itemPath (source target name : String) : String :=
  if source = target then name
  else "::".intercalate (route (modulePath source) (modulePath target) ++ [name])

end Bindery.Code
