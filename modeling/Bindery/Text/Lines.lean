/-!
# Lines

A text is broken wherever one of the line ends occurs; a carriage return and a line feed in a row
count once.  The last line needs no end, and the empty text has no line.
-/

namespace Bindery.Text

/-- The characters that end a line: line feed, vertical tab, form feed, carriage return, the three
information separators, next line, line separator and paragraph separator. -/
def lineEnds : List Char :=
  ['\n', '\x0b', '\x0c', '\x0d', '\x1c', '\x1d', '\x1e', '\u0085', '\u2028', '\u2029']

/-- The lines of a text, without their ends. -/
def lines : List Char → List (List Char)
  | [] => []
  | '\x0d' :: '\n' :: rest => [] :: lines rest
  | c :: rest =>
    if c ∈ lineEnds then [] :: lines rest
    else
      match lines rest with
      | [] => [[c]]
      | line :: others => (c :: line) :: others

def linesOf (text : String) : List String :=
  (lines text.toList).map .ofList

/-- Lines with a line feed between each two. -/
def joinLines (texts : List String) : String :=
  "\n".intercalate texts

end Bindery.Text
