/-!
# Numerals

Digits of whole numbers in base ten and sixteen: writing to a fixed width, and reading.
-/

namespace Bindery.Text

/-- The value of a digit in base sixteen; both cases of the letters are digits. -/
def hexValue? (c : Char) : Option Nat :=
  if c.isDigit then some (c.toNat - '0'.toNat)
  else if 'a' ≤ c ∧ c ≤ 'f' then some (c.toNat - 'a'.toNat + 10)
  else if 'A' ≤ c ∧ c ≤ 'F' then some (c.toNat - 'A'.toNat + 10)
  else none

def isHexDigit (c : Char) : Bool := (hexValue? c).isSome

/-- The number that digits in base sixteen spell; other characters count as zero. -/
def hexNumber (cs : List Char) : Nat :=
  cs.foldl (fun n c => 16 * n + (hexValue? c).getD 0) 0

/-- The number that decimal digits spell. -/
def decimalNumber (cs : List Char) : Nat :=
  Nat.ofDigitChars 10 cs 0

/-- The last `width` digits of a number in base sixteen, small letters, zeros in front. -/
def hexDigits : Nat → Nat → List Char
  | 0, _ => []
  | width + 1, n => hexDigits width (n / 16) ++ [Nat.digitChar (n % 16)]

def hexText (width n : Nat) : String :=
  .ofList (hexDigits width n)

end Bindery.Text
