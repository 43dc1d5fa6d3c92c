import Bindery.Text.Snake
/-!
# Identifiers

Names are fitted to the rules of the generated code.  A reserved word is written as a raw
identifier, `r#word`; the four words that cannot be raw get an underscore at their end.
-/

namespace Bindery.Code

def reservedWords : List String :=
  ["as", "break", "const", "continue", "crate", "else", "enum", "extern", "false",
   "fn", "for", "if", "impl", "in", "let", "loop", "match", "mod", "move", "mut",
   "pub", "ref", "return", "self", "Self", "static", "struct", "super", "trait",
   "true", "type", "unsafe", "use", "where", "while",
   "async", "await", "dyn",
   "abstract", "become", "box", "do", "final", "macro", "override", "priv",
   "typeof", "unsized", "virtual", "yield", "try"]

/-- The reserved words that cannot be written as raw identifiers. -/
def neverRaw : List String :=
  ["crate", "self", "Self", "super"]

/-- A name that can stand as an identifier. -/
def identifier (name : String) : String :=
  if name ∈ neverRaw then name ++ "_"
  else if name ∈ reservedWords then "r#" ++ name
  else name

/-- An identifier without the mark of a raw identifier; both forms name the same thing. -/
def bare (name : String) : String :=
  match name.toList with
  | 'r' :: '#' :: rest => .ofList rest
  | _ => name

/-- A metadata name as a member identifier: snake case, escaped. -/
def memberIdentifier (name : String) : String :=
  identifier (Text.snakeCase name)

end Bindery.Code
