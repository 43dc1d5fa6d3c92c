/-!
# Blanks and digits beyond ASCII

Which characters are blank, and which stand for a decimal digit.
-/

namespace Bindery.Text

/-- The blank characters of ASCII that may surround a numeral. -/
def asciiBlanks : List Char :=
  ['\t', '\n', '\x0b', '\x0c', '\x0d', ' ']

/-- The blank characters beyond ASCII. -/
def wideBlanks : List Char :=
  ['\u0085', '\u00a0', '\u1680', '\u2000', '\u2001', '\u2002', '\u2003', '\u2004', '\u2005', '\u2006',
   '\u2007', '\u2008', '\u2009', '\u200a', '\u2028', '\u2029', '\u202f', '\u205f', '\u3000']

/-- Whether a character is blank.  The four information separators are blank in running text,
though not around a numeral. -/
def isBlank (c : Char) : Bool :=
  c ∈ asciiBlanks || c ∈ wideBlanks || c ∈ ['\x1c', '\x1d', '\x1e', '\x1f']

/-- The text without the characters of a class at both ends. -/
def trimBoth (drop : Char → Bool) (cs : List Char) : List Char :=
  ((cs.dropWhile drop).reverse.dropWhile drop).reverse

/-- The code points of the digits zero beyond ASCII; the nine that follow each are the digits one to
nine of the same script. -/
def zeroDigits : List Nat :=
  [
    1632, 1776, 1984, 2406, 2534, 2662, 2790, 2918, 3046, 3174, 3302, 3430, 3558, 3664, 3792,
    3872, 4160, 4240, 6112, 6160, 6470, 6608, 6784, 6800, 6992, 7088, 7232, 7248, 42528, 43216,
    43264, 43472, 43504, 43600, 44016, 65296, 66720, 68912, 69734, 69872, 69942, 70096, 70384,
    70736, 70864, 71248, 71360, 71472, 71904, 72016, 72784, 73040, 73120, 92768, 92864, 93008,
    120782, 120792, 120802, 120812, 120822, 123200, 123632, 125264, 130032
  ]

/-- The ASCII digit that a digit beyond ASCII stands for. -/
def wideDigit? (c : Char) : Option Char :=
  (zeroDigits.find? fun base => base ≤ c.toNat && c.toNat < base + 10).map fun base =>
    Nat.digitChar (c.toNat - base)

/-- Whether a character is a decimal digit of any script. -/
def isDecimalDigit (c : Char) : Bool := c.isDigit || (wideDigit? c).isSome

/-- A character of a numeral in ASCII: blanks beyond ASCII become spaces, digits of other scripts
the digits they stand for.  None if the character has no place in a numeral. -/
def asciiNumeral? (c : Char) : Option Char :=
  if c.toNat < 127 then some c
  else if c ∈ wideBlanks then some ' '
  else wideDigit? c

/-- A numeral in ASCII without the blanks around it. -/
def normaliseNumeral? (cs : List Char) : Option (List Char) :=
  (cs.mapM asciiNumeral?).map (trimBoth (· ∈ asciiBlanks))

end Bindery.Text
