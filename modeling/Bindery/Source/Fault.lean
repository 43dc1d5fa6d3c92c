import Bindery.Error
import Bindery.Source.Parser
/-!
# Where a text is at fault

A fault is reported at the first character, from the furthest point of reading on, behind which no
piece of layout that began earlier still reaches.  Layout counts wherever it stands, also inside a
string; so a fault is moved on while something that looks like a comment lasts.  If the end of the
text comes first, the text ends too early.
-/

namespace Bindery.Source

/-- The offset of the fault in the text from offset `i` on, where `reach` is the furthest end of
layout before and `furthest` the point up to which the text could be read. -/
def faultOffset (furthest : Nat) : Nat → Nat → List Char → Option Nat
  | _, _, [] => none
  | i, reach, c :: rest =>
    let reach := max reach (i + layoutLength (c :: rest))
    if furthest ≤ i ∧ reach ≤ i + 1 then some i else faultOffset furthest (i + 1) reach rest

/-- The position of an offset: lines end with line feeds, and columns count characters. -/
def positionAt (text : List Char) (offset : Nat) : Position :=
  let before := text.take offset
  ⟨before.count '\n' + 1, (before.reverse.takeWhile (· ≠ '\n')).length + 1⟩

/-- The position of the fault in a text of which `left` characters could not be read; none if the
text ends too early. -/
def faultPosition (text : List Char) (left : Nat) : Option Position :=
  (faultOffset (text.length - left) 0 0 text).map (positionAt text)

end Bindery.Source
