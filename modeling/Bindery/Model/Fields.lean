import Bindery.FieldType.Basic
import Bindery.Guid
/-!
# Field lists

The stored fields of a struct by identifier and type, and the passes that put them into final form:
identifiers are made distinct, recorded pointers of delegates are dropped, and a struct without
fields gets one byte.
-/

namespace Bindery

/-- Fields in order, each with its identifier. -/
abbrev FieldList := List (String × FieldType)

namespace FieldList

/-! ### Distinct identifiers -/

/-- The number that makes `base` distinct from the names taken: the least one from two on. -/
def leastSuffix (taken : List String) (base : String) : Nat :=
  ((List.range' 2 (taken.length + 1)).find? fun n => base ++ toString n ∉ taken).getD 2

/-- The identifier of a field after fields with the names taken. -/
def freshName (taken : List String) (name : String) : String :=
  let base := Code.bare name
  if base ∈ taken then base ++ toString (leastSuffix taken base) else name

/-- Distinct identifiers for fields that come after the names taken. -/
def uniqueAfter (taken : List String) : FieldList → FieldList
  | [] => []
  | (name, t) :: rest =>
    let fresh := freshName taken name
    (fresh, t) :: uniqueAfter (taken ++ [Code.bare fresh]) rest

/-- Every field whose name was used before gets a number.  A raw identifier counts as the word it
stands for, and loses its mark with the number. -/
def unique (fields : FieldList) : FieldList := uniqueAfter [] fields

/-! ### The other passes -/

/-- Metadata records one pointer too many for delegates, so none of theirs counts. -/
def fixDelegates (fields : FieldList) : FieldList :=
  fields.map fun (name, t) => (name, if t.isDelegate then t.withPointers 0 else t)

/-- The name of the byte that an empty struct occupies. -/
def reservedName : String := "reserved"

/-- A struct without fields occupies one byte, unless it only stands for an identity. -/
def pad (guid : Guid) (fields : FieldList) : FieldList :=
  if fields.isEmpty && guid.isAbsent then [(reservedName, .ofPrimitive .u8)] else fields

inductive Pass
  | unique
  | fixDelegates
  | pad (guid : Guid)
  deriving DecidableEq, Repr

def Pass.apply : Pass → FieldList → FieldList
  | unique => FieldList.unique
  | fixDelegates => FieldList.fixDelegates
  | pad guid => FieldList.pad guid

def run (passes : List Pass) (fields : FieldList) : FieldList :=
  passes.foldl (fun fs pass => pass.apply fs) fields

/-- The passes for a struct, in order. -/
def standardPasses (guid : Guid) : List Pass := [.unique, .fixDelegates, .pad guid]

end FieldList

end Bindery
