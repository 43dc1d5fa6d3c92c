import Bindery.Decimal.Numeral
import Bindery.Decimal.Written
import Bindery.Text.Quoted
/-!
# Metadata values

The literals that metadata can hold: constants, enumeration values and attribute arguments.
-/

namespace Bindery

inductive Value
  | int (n : Int)
  | double (x : Double)
  | text (s : String)
  | bool (b : Bool)
  | none
  deriving DecidableEq, Repr

namespace Value

/-- Numbers are written positionally for exponents from -4 to 15, otherwise with an exponent of at
least two digits. -/
def numberStyle : Double.Style where
  positionalFrom := -4
  positionalBelow := 16
  exponentWidth := 2
  infinity := "inf"
  notANumber := "nan"

/-- A literal as it is shown in a message: texts are quoted. -/
def shown : Value → String
  | int n => toString n
  | double x => x.written numberStyle
  | text s => Text.quoted s
  | bool b => if b then "True" else "False"
  | none => "None"

/-- A literal as plain text: like `shown`, but a text stands for itself. -/
def plain : Value → String
  | text s => s
  | v => v.shown

def shownList (vs : List Value) : String :=
  Text.bracketed (vs.map shown)

/-- The whole number that a literal is; truth values count as one and zero. -/
def int? : Value → Option Int
  | int n => some n
  | bool b => some (if b then 1 else 0)
  | _ => Option.none

/-- Truth of a literal: zero, the empty text and the absent literal are false. -/
def isTrue : Value → Bool
  | int n => n != 0
  | double x => x.isTrue
  | text s => s != ""
  | bool b => b
  | none => false

/-- The literal, unless it is absent. -/
def present? : Value → Option Value
  | none => Option.none
  | v => some v

/-- Equality of literals: numbers are compared by their exact values, whatever their form. -/
def same : Value → Value → Bool
  | double x, double y => x.same y
  | double x, v => v.int?.any x.sameInt
  | v, double x => v.int?.any x.sameInt
  | text s, text t => s = t
  | none, none => true
  | v, w =>
    match v.int?, w.int? with
    | some m, some n => m = n
    | _, _ => false

end Value

end Bindery
