import Bindery.Model.Declarations
/-!
# Files of code

A file holds the declarations of many models, each in the module of its namespace.  The modules are
written in order of their paths; between two of them, the modules they do not share are closed and
opened.
-/

namespace Bindery.Code

def fileHeader : String := "// Generated by struct_wrangler. Do not edit."

def indentTo (depth : Nat) : String := String.join (List.replicate depth indentation)

/-- A line in a module at a depth; an empty line stays empty. -/
def lineAt (depth : Nat) (line : String) : String :=
  if line = "" then line else indentTo depth ++ line

/-- The lines that close modules, innermost first, until `keep` of `depth` are left. -/
def closing (keep depth : Nat) : List String :=
  (List.range' keep (depth - keep)).reverse.map fun k => indentTo k ++ "\x7d"

/-- The lines that open modules inside `depth` others. -/
def opening (depth : Nat) (segments : List String) : List String :=
  segments.mapIdx fun k segment => indentTo (depth + k) ++ "pub mod " ++ segment ++ " \x7b"

/-- How many modules two paths share. -/
def sharedDepth : List String → List String → Nat
  | s :: source, t :: target => if s = t then sharedDepth source target + 1 else 0
  | _, _ => 0

/-- The lines between two paths. -/
def moduleChange (source target : List String) : List String :=
  let shared := sharedDepth source target
  closing shared source.length ++ opening shared (target.drop shared)

/-- The lines of modules in order, given the modules that are open. -/
def moduleLines : List String → List (List String × List String) → List String
  | path, [] => closing 0 path.length
  | path, (target, lines) :: rest =>
    moduleChange path target ++ lines.map (lineAt target.length) ++ moduleLines target rest

/-- The order of module paths: by the first segment that differs, a path before its extensions. -/
def pathLe : List String → List String → Bool
  | [], _ => true
  | _ :: _, [] => false
  | s :: source, t :: target => if s = t then pathLe source target else decide (s ≤ t)

/-- The models by module, the modules in order of their paths and the models in the given order. -/
def byModule (models : List Model) : List (List String × List Model) :=
  let path (m : Model) := modulePath m.name.space
  let paths := ((models.map path).mergeSort pathLe).eraseDups
  paths.map fun p => (p, models.filter (path · = p))

def modelLines (reg : Registry) (m : Model) : Traced (List String) :=
  return Text.linesOf (joinDeclarations (← m.declarations reg))

/-- The lines of the models of each module. -/
def filledModules (reg : Registry) (models : List Model) :
    Traced (List (List String × List String)) :=
  (byModule models).mapM fun (path, ms) => return (path, (← ms.mapM (modelLines reg)).flatten)

def fileText (reg : Registry) (models : List Model) : Traced String :=
  return Text.joinLines ([fileHeader, ""] ++ moduleLines [] (← filledModules reg models)) ++ "\n"

end Bindery.Code
