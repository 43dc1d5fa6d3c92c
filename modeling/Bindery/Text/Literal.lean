/-!
# String literals

A string literal stands between double quotes.  Inside it a backslash and a double quote are each
written with a backslash in front; every other character stands for itself.
-/

namespace Bindery.Text

/-- How one character is written inside a literal. -/
def escapeChar (c : Char) : List Char :=
  if c = '\\' ∨ c = '\x22' then ['\\', c] else [c]

/-- The literal that stands for a text, quotes included. -/
def encodeLiteral (cs : List Char) : List Char :=
  '\x22' :: cs.flatMap escapeChar ++ ['\x22']

/-- Every `a` followed by `b` becomes `c`, from left to right; a pair that has been replaced takes
no part in another. -/
def replacePair (a b c : Char) : List Char → List Char
  | x :: y :: rest =>
    if x = a ∧ y = b then c :: replacePair a b c rest else x :: replacePair a b c (y :: rest)
  | cs => cs

/-- The text that the inside of a literal stands for: escaped quotes are resolved first, escaped
backslashes after them.  A backslash before any other character stays. -/
def decodeLiteral (body : List Char) : List Char :=
  replacePair '\\' '\\' '\\' (replacePair '\\' '\x22' '\x22' body)

def stringLiteral (text : String) : String :=
  .ofList (encodeLiteral text.toList)

/-- The literal for a string as a sequence of bytes. -/
def byteStringLiteral (text : String) : String :=
  "b" ++ stringLiteral text

end Bindery.Text
