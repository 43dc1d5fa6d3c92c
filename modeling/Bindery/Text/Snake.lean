/-!
# Snake case

A name written in camel case, Pascal case or capitals is cut into words, and the words are written
in lower case with an underscore between them.  Only ASCII letters and digits take part: metadata
names hold no capital letters beyond ASCII.
-/

namespace Bindery.Text

/-- `c` opens a new word after `before`: a capital after a small letter or a digit, or a capital
after a capital when a small letter comes next (`after`). -/
def opensWord (before c : Char) (after : Option Char) : Bool :=
  c.isUpper && (before.isLower || before.isDigit || (before.isUpper && after.any Char.isLower))

/-- The snake case of `cs`, given the character that stands before it. -/
def snakeFrom : Option Char → List Char → List Char
  | _, [] => []
  | before, c :: rest =>
    if before.any (opensWord · c rest.head?) then
      '_' :: c.toLower :: snakeFrom (some c) rest
    else
      c.toLower :: snakeFrom (some c) rest

def snakeCase (name : String) : String :=
  .ofList (snakeFrom none name.toList)

end Bindery.Text
