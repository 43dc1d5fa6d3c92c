import Bindery.Decimal.Double
import Bindery.Text.Blank
import Bindery.Text.Numeral
/-!
# Numerals for binary64 numbers

A numeral has an optional sign and either one of the words for infinity and for no number, in any
case, or decimal digits with an optional point and an optional exponent.  A single underscore may
stand between two digits.  Blanks around the numeral do not count.
-/

namespace Bindery.Double

open Text

/-- The numeral without its underscores, if each of them stands between two digits. -/
def dropUnderscores? : Option Char → List Char → Option (List Char)
  | _, [] => some []
  | before, '_' :: rest =>
    if before.any Char.isDigit && rest.head?.any Char.isDigit then
      dropUnderscores? (some '_') rest
    else none
  | _, c :: rest => (dropUnderscores? (some c) rest).map (c :: ·)

/-- A sign in front of a numeral: whether it is a minus, and what follows it. -/
def takeSign : List Char → Bool × List Char
  | '-' :: rest => (true, rest)
  | '+' :: rest => (false, rest)
  | cs => (false, cs)

/-- The exponent at the end of a numeral; nothing at all stands for zero. -/
def readExponent? : List Char → Option Int
  | [] => some 0
  | c :: rest =>
    if c = 'e' ∨ c = 'E' then
      let (negative, ds) := takeSign rest
      if ds.isEmpty || !ds.all Char.isDigit then none
      else
        let n : Int := decimalNumber ds
        some (if negative then -n else n)
    else none

/-- Digits, optionally a point and more digits, and an exponent; at least one digit stands before
the exponent. -/
def readDigits? (negative : Bool) (cs : List Char) : Option Double := do
  let whole := cs.takeWhile Char.isDigit
  let rest := cs.dropWhile Char.isDigit
  let (decimals, rest) := match rest with
    | '.' :: rest => (rest.takeWhile Char.isDigit, rest.dropWhile Char.isDigit)
    | rest => ([], rest)
  if whole.isEmpty && decimals.isEmpty then none
  else
    let exponent ← readExponent? rest
    some (ofDecimal negative (decimalNumber (whole ++ decimals)) (exponent - decimals.length))

/-- The number that a numeral without blanks stands for. -/
def readNumeral? (cs : List Char) : Option Double :=
  let (negative, rest) := takeSign cs
  let word := String.ofList (rest.map Char.toLower)
  if word = "inf" ∨ word = "infinity" then some (.infinite negative)
  else if word = "nan" then some .nan
  else readDigits? negative rest

def read? (text : String) : Option Double := do
  let cs ← normaliseNumeral? text.toList
  let cs ← dropUnderscores? none cs
  readNumeral? cs

end Bindery.Double
