/-!
# Binary64 numbers

A finite number is a sign, a significand below `2 ^ 53` and an exponent of two.  Everything is exact
arithmetic on whole numbers; the only approximation is `ofRatio`, which goes to the nearest number
and, from the middle between two, to the one with an even significand.
-/

namespace Bindery

/-- A binary64 number. -/
inductive Double
  /-- The number `± significand * 2 ^ exponent`. -/
  | finite (negative : Bool) (significand : Nat) (exponent : Int)
  | infinite (negative : Bool)
  | nan
  deriving DecidableEq, Repr

namespace Double

def leastExponent : Int := -1074

def greatestExponent : Int := 971

/-- The least significand of a number that is not subnormal, two to the power of 52. -/
def leastNormal : Nat := 0x10000000000000

def twoTo (k : Nat) : Nat := Nat.pow 2 k

def tenTo (k : Nat) : Nat := Nat.pow 10 k

def zero (negative : Bool) : Double := .finite negative 0 leastExponent

/-- `n / d` to the nearest whole number, from the middle to the even one. -/
def roundDiv (n d : Nat) : Nat :=
  let q := n / d
  let twice := 2 * (n % d)
  if twice < d then q else if d < twice then q + 1 else q + q % 2

/-- `num / den * 2 ^ k` as a pair of numerator and denominator. -/
def scale (num den : Nat) (k : Int) : Nat × Nat :=
  if 0 ≤ k then (num * twoTo k.toNat, den) else (num, den * twoTo (-k).toNat)

/-- The greatest `k` with `2 ^ k ≤ num / den`, for positive `num` and `den`. -/
def binaryOrder (num den : Nat) : Int :=
  let k : Int := (num.log2 : Int) - den.log2
  let (n, d) := scale num den (-k)
  if d ≤ n then k else k - 1

/-- The number nearest to `± num / den`. -/
def ofRatio (negative : Bool) (num den : Nat) : Double :=
  if num = 0 then zero negative
  else
    let e := max (binaryOrder num den - 52) leastExponent
    let (n, d) := scale num den (-e)
    let m := roundDiv n d
    let (m, e) := if m = 2 * leastNormal then (leastNormal, e + 1) else (m, e)
    if greatestExponent < e then .infinite negative else .finite negative m e

/-- The number nearest to a whole number; none if that is beyond the finite numbers. -/
def ofInt? (n : Int) : Option Double :=
  match ofRatio (n < 0) n.natAbs 1 with
  | .infinite _ => none
  | x => some x

/-- The number nearest to `± digits * 10 ^ exponent`.  Exponents far outside the range of the
finite numbers are settled without computing the power. -/
def ofDecimal (negative : Bool) (digits : Nat) (exponent : Int) : Double :=
  if digits = 0 then zero negative
  else
    let order : Int := (Nat.toDigits 10 digits).length + exponent
    if 400 < order then .infinite negative
    else if order < -400 then zero negative
    else if 0 ≤ exponent then ofRatio negative (digits * tenTo exponent.toNat) 1
    else ofRatio negative digits (tenTo (-exponent).toNat)

/-- Both zeros are false, every other number is true, and so is the absence of a number. -/
def isTrue : Double → Bool
  | .finite _ m _ => m != 0
  | _ => true

/-- Equality of value: the two zeros are equal, and what is no number equals nothing. -/
def same : Double → Double → Bool
  | .nan, _ => false
  | _, .nan => false
  | .finite s m e, .finite s' m' e' => (m = 0 && m' = 0) || (s = s' && m = m' && e = e')
  | x, y => x = y

def sameInt : Double → Int → Bool
  | .finite s m e, n =>
    let magnitude := if 0 ≤ e then m * twoTo e.toNat == n.natAbs else m == n.natAbs * twoTo (-e).toNat
    magnitude && (m == 0 || (s == decide (n < 0)))
  | _, _ => false

end Double

end Bindery
