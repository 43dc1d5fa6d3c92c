import Bindery.Decimal.Double
/-!
# The shortest decimal

Among the decimals that read back as a given binary64 number, those with the fewest digits are
taken, and of these the nearest to the number.
-/

namespace Bindery.Double

/-- A positive decimal `digits * 10 ^ exponent`. -/
structure Digits where
  digits : Nat
  exponent : Int
  deriving DecidableEq, Repr

def digitCount (n : Nat) : Nat := (Nat.toDigits 10 n).length

/-- The greatest `k` with `10 ^ k ≤ num / den`, for positive `num` and `den`. -/
def decimalOrder (num den : Nat) : Int :=
  let k : Int := (digitCount num : Int) - digitCount den
  let reached := if 0 ≤ k then den * tenTo k.toNat ≤ num else den ≤ num * tenTo (-k).toNat
  if reached then k else k - 1

/-- The reals that round to a number, in quarters of a unit of its last place: the number itself,
the two ends, and whether the ends belong to the interval. -/
structure Interval where
  value : Nat
  low : Nat
  high : Nat
  closed : Bool
  deriving DecidableEq, Repr

/-- The interval of `m * 2 ^ e`.  Below a power of two the neighbour is only half as far. -/
def interval (m : Nat) (e : Int) : Interval where
  value := 4 * m
  low := if m = leastNormal ∧ leastExponent < e then 4 * m - 1 else 4 * m - 2
  high := 4 * m + 2
  closed := m % 2 = 0

/-- Whether `point`, in units of which the interval's own count is `unit`, lies inside. -/
def Interval.contains (i : Interval) (unit point : Nat) : Bool :=
  if i.closed then i.low * unit ≤ point && point ≤ i.high * unit
  else i.low * unit < point && point < i.high * unit

/-- The point to take on the grid of multiples of `step`: of the two neighbours of the value, those
inside the interval, and of two the nearer; from the middle the even multiple. -/
def Interval.onGrid (i : Interval) (unit step : Nat) : Option Nat :=
  let v := i.value * unit
  let below := v / step
  let above := below + 1
  match i.contains unit (below * step), i.contains unit (above * step) with
  | true, true => some (Double.roundDiv v step)
  | true, false => some below
  | false, true => some above
  | false, false => none

/-- The first grid with a point inside, from `count` digits on, at most `more` grids further. -/
def searchGrid (i : Interval) (e order : Int) : Nat → Nat → Digits
  | 0, _ => ⟨0, 0⟩
  | more + 1, count =>
    let s := order - count + 1
    let quarter := e - 2
    let unit := twoTo quarter.toNat * tenTo (-s).toNat
    let step := twoTo (-quarter).toNat * tenTo s.toNat
    match i.onGrid unit step with
    | some n => ⟨n, s⟩
    | none => searchGrid i e order more (count + 1)

/-- Zeros at the end of the digits move into the exponent. -/
def Digits.trim (d : Digits) : Digits :=
  go (digitCount d.digits) d
where
  go : Nat → Digits → Digits
    | 0, d => d
    | fuel + 1, d =>
      if d.digits ≠ 0 ∧ d.digits % 10 = 0 then go fuel ⟨d.digits / 10, d.exponent + 1⟩ else d

/-- The shortest decimal for `m * 2 ^ e`, where `m` is positive.  Seventeen digits always suffice. -/
def shortest (m : Nat) (e : Int) : Digits :=
  let (num, den) := scale m 1 e
  (searchGrid (interval m e) e (decimalOrder num den) 17 1).trim

end Bindery.Double
