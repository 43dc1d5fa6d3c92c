import Bindery.Model.Basic
/-!
# Ordering models

Models are put in an order in which each comes after those it holds by value.  The search goes
through the models as given and, before it emits one, through what that one holds; a definition
that is met while it is being looked at closes a cycle, unless a model holds itself.

Two models can be of the same definition; they are told apart by a tag, and the last of them is the
one that others depend on.
-/

namespace Bindery

/-- A model in a list, with a tag that tells it from others of the same definition. -/
structure Item where
  tag : Nat
  model : Model

namespace Item

def place (i : Item) : Place := i.model.name.place

/-- The items that an item depends on: for each definition held by value, the last item of it, if
that is another than the item itself. -/
def requirements (items : List Item) (i : Item) : List Item :=
  i.model.valueDependencies.filterMap fun p =>
    (items.reverse.find? (·.place = p)).filter (·.tag ≠ i.tag)

end Item

/-- How far the search has come: the items emitted, in order. -/
abbrev Emitted := List Item

def Emitted.has (s : Emitted) (p : Place) : Bool := s.any (·.place = p)

/-- The definitions other than `p`. -/
def without (p : Place) (ps : List Place) : List Place := ps.filter (· ≠ p)

theorem length_without_lt {p : Place} {ps : List Place} (h : p ∈ ps) :
    (without p ps).length < ps.length := by
  refine Nat.lt_of_le_of_ne (List.length_filter_le ..) fun e => ?_
  have := List.length_filter_eq_length_iff.1 e p h
  simp at this

/-- Emit an item after all it requires.  `free` holds the definitions that are not being looked at,
and `path` the names of those that are. -/
def visit (items : List Item) (free : List Place) (path : List String) (i : Item) (s : Emitted) :
    Except Error Emitted :=
  if s.has i.place then .ok s
  else
    let path := path ++ [i.model.name.qualifiedName]
    if _h : i.place ∈ free then do
      let s ← (i.requirements items).foldlM
        (fun s j => visit items (without i.place free) path j s) s
      return s ++ [i]
    else .error (.dependencyCycle path)
termination_by free.length
decreasing_by exact length_without_lt _h

/-- The items in an order in which each comes after those it requires. -/
def sortItems (items : List Item) : Except Error (List Item) :=
  items.foldlM (fun s i => visit items (items.map (·.place)) [] i s) []

/-- The models in an order in which each comes after those it holds by value. -/
def sortModels (models : List Model) : Except Error (List Model) :=
  return (← sortItems (models.mapIdx fun k m => ⟨k, m⟩)).map (·.model)

end Bindery
