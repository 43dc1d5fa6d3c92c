import Bindery.Text.Numeral
import Bindery.Text.Literal
import Bindery.Value
/-!
# Terminals

The pieces of which metadata text consists, each with the rule that says how far it reaches, and the
layout (blanks and comments) that may stand between them.  A terminal reaches as far as it can; a
keyword or mark needs nothing behind it.
-/

namespace Bindery.Source

/-! ### Layout -/

/-- The blanks that may stand between terminals. -/
def blanks : List Char := [' ', '\t', '\x0c', '\x0d', '\n']

/-- The layout at the start of a text and what follows it.  Two slashes open a comment, which goes
on (first argument) up to the end of the line. -/
def layoutSpan : Bool → List Char → List Char × List Char
  | _, [] => ([], [])
  | true, c :: rest =>
    let (layout, rest) := layoutSpan (c ≠ '\n') rest
    (c :: layout, rest)
  | false, '/' :: '/' :: rest =>
    let (layout, rest) := layoutSpan true rest
    ('/' :: '/' :: layout, rest)
  | false, c :: rest =>
    if c ∈ blanks then
      let (layout, rest) := layoutSpan false rest
      (c :: layout, rest)
    else ([], c :: rest)

/-- How far one piece of layout, a comment or a run of blanks, reaches from the start of a text. -/
def layoutLength : List Char → Nat
  | '/' :: '/' :: rest => 2 + (rest.takeWhile (· ≠ '\n')).length
  | cs => (cs.takeWhile (· ∈ blanks)).length

/-! ### Terminals -/

/-- A terminal: a fixed word or mark, a name, a number or a string. -/
inductive Terminal
  | fixed (text : String)
  | name
  | number
  | string
  deriving DecidableEq, Repr

def opensName (c : Char) : Bool := c.isAlpha || c = '_'

def continuesName (c : Char) : Bool := c.isAlphanum || c = '_'

/-- A fixed text at the start of another. -/
def takeFixed? : List Char → List Char → Option (List Char × List Char)
  | [], cs => some ([], cs)
  | _ :: _, [] => none
  | p :: ps, c :: cs =>
    if p = c then (takeFixed? ps cs).map fun (taken, rest) => (c :: taken, rest) else none

/-- A letter or underscore, followed by letters, digits and underscores. -/
def takeName? : List Char → Option (List Char × List Char)
  | [] => none
  | c :: rest =>
    if opensName c then some (c :: rest.takeWhile continuesName, rest.dropWhile continuesName)
    else none

/-- Decimal digits, and after a point decimals. -/
def takeDecimal? (cs : List Char) : Option (List Char × List Char) :=
  let whole := cs.takeWhile Char.isDigit
  if whole.isEmpty then none
  else
    match cs.dropWhile Char.isDigit with
    | '.' :: rest =>
      let decimals := rest.takeWhile Char.isDigit
      if decimals.isEmpty then some (whole, '.' :: rest)
      else some (whole ++ '.' :: decimals, rest.dropWhile Char.isDigit)
    | rest => some (whole, rest)

/-- Hexadecimal digits after their mark, or decimal digits. -/
def takeUnsigned? : List Char → Option (List Char × List Char)
  | '0' :: x :: d :: rest =>
    if (x = 'x' ∨ x = 'X') ∧ Text.isHexDigit d then
      some ('0' :: x :: d :: rest.takeWhile Text.isHexDigit, rest.dropWhile Text.isHexDigit)
    else takeDecimal? ('0' :: x :: d :: rest)
  | cs => takeDecimal? cs

/-- A number, possibly with a minus sign. -/
def takeNumber? : List Char → Option (List Char × List Char)
  | '-' :: rest => (takeUnsigned? rest).map fun (taken, rest) => ('-' :: taken, rest)
  | cs => takeUnsigned? cs

/-- The inside of a string and its closing quote.  A backslash takes the next character with it,
which is not a line feed. -/
def takeStringBody? : List Char → Option (List Char × List Char)
  | [] => none
  | '\x22' :: rest => some (['\x22'], rest)
  | '\\' :: c :: rest =>
    if c = '\n' then none
    else (takeStringBody? rest).map fun (taken, rest) => ('\\' :: c :: taken, rest)
  | c :: rest =>
    if c = '\\' then none
    else (takeStringBody? rest).map fun (taken, rest) => (c :: taken, rest)

def takeString? : List Char → Option (List Char × List Char)
  | '\x22' :: rest => (takeStringBody? rest).map fun (taken, rest) => ('\x22' :: taken, rest)
  | _ => none

/-- The longest piece at the start of a text that is the terminal, and what follows it. -/
def Terminal.take? : Terminal → List Char → Option (List Char × List Char)
  | fixed text, cs => takeFixed? text.toList cs
  | name, cs => takeName? cs
  | number, cs => takeNumber? cs
  | string, cs => takeString? cs

/-! ### What literals stand for -/

def unsignedValue (negative : Bool) (cs : List Char) : Value :=
  let signed (n : Nat) : Value := .int (if negative then -n else n)
  match cs with
  | '0' :: 'x' :: ds | '0' :: 'X' :: ds => signed (Text.hexNumber ds)
  | ds =>
    let decimals := (ds.dropWhile (· ≠ '.')).drop 1
    if ds.contains '.' then
      .double (Double.ofDecimal negative (Text.decimalNumber (ds.filter (· ≠ '.'))) (-decimals.length))
    else signed (Text.decimalNumber ds)

def numberValue : List Char → Value
  | '-' :: rest => unsignedValue true rest
  | cs => unsignedValue false cs

/-- The value of a string: the text inside its quotes, with escapes resolved. -/
def stringValue (cs : List Char) : Value :=
  .text (.ofList (Text.decodeLiteral (cs.drop 1).dropLast))

end Bindery.Source
