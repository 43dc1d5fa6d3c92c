import Bindery.Decimal.Shortest
/-!
# Written decimals

How a decimal is laid out: which exponents are written positionally, and how the others look.
-/

namespace Bindery.Double

/-- The choices that fix the written form of a number. -/
structure Style where
  /-- The least decimal exponent that is written positionally. -/
  positionalFrom : Int
  /-- The least greater exponent that is not. -/
  positionalBelow : Int
  /-- The least number of digits in a written exponent. -/
  exponentWidth : Nat
  infinity : String
  notANumber : String

def zeros (n : Nat) : List Char := .replicate n '0'

/-- The digits with the point after the first `e + 1` of them; zeros fill up to the point. -/
def positional (ds : List Char) (e : Int) : List Char :=
  if e < 0 then '0' :: '.' :: zeros (-e - 1).toNat ++ ds
  else
    let whole := e.toNat + 1
    if ds.length ≤ whole then ds ++ zeros (whole - ds.length) ++ ['.', '0']
    else ds.take whole ++ '.' :: ds.drop whole

/-- One digit before the point, and the exponent with its sign. -/
def scientific (style : Style) (ds : List Char) (e : Int) : List Char :=
  let mantissa := match ds with
    | [] => []
    | [d] => [d]
    | d :: rest => d :: '.' :: rest
  let es := Nat.toDigits 10 e.natAbs
  mantissa ++ 'e' :: (if e < 0 then '-' else '+') :: zeros (style.exponentWidth - es.length) ++ es

/-- A positive decimal as text. -/
def Digits.written (style : Style) (d : Digits) : List Char :=
  let ds := Nat.toDigits 10 d.digits
  let e := d.exponent + ds.length - 1
  if style.positionalFrom ≤ e ∧ e < style.positionalBelow then positional ds e
  else scientific style ds e

/-- A number as text: the shortest decimal that reads back to it. -/
def written (style : Style) : Double → String
  | .nan => style.notANumber
  | .infinite negative => (if negative then "-" else "") ++ style.infinity
  | .finite negative m e =>
    (if negative then "-" else "") ++
      (if m = 0 then "0.0" else .ofList ((shortest m e).written style))

end Bindery.Double
