import Bindery.Error
import Bindery.Text.Blank
/-!
# Type identities

A type identity is a number of 128 bits.  It is written in five groups of hexadecimal digits, and
divided into components of 32, 16, 16 and eight times 8 bits.  Zero says that a type has no identity.
-/

namespace Bindery

structure Guid where
  value : Nat
  /-- There are 128 bits. -/
  value_lt : value < 0x100000000000000000000000000000000
  deriving DecidableEq, Repr

namespace Guid

/-- The identity of a type without one. -/
def absent : Guid := ⟨0, by decide⟩

/-- Whether there is an identity. -/
def isAbsent (g : Guid) : Bool := g.value = 0

def ofInt (n : Int) : Except Error Guid :=
  if h : 0 ≤ n ∧ n < 0x100000000000000000000000000000000 then .ok ⟨n.toNat, by omega⟩
  else .error (.guidRange (.int n))

/-- The identity with the number that a literal is.  Only whole numbers are in range. -/
def ofValue (v : Value) : Except Error Guid :=
  match v.int? with
  | some n => ofInt n
  | none => .error (.guidRange v)

/-! ### Components and text -/

structure Components where
  data1 : Nat
  data2 : Nat
  data3 : Nat
  data4 : List Nat
  deriving DecidableEq, Repr

def weight1 : Nat := 0x1000000000000000000000000

def weight2 : Nat := 0x100000000000000000000

def weight3 : Nat := 0x10000000000000000

/-- The weights of the eight single bytes. -/
def byteWeights : List Nat :=
  [0x100000000000000, 0x1000000000000, 0x10000000000, 0x100000000, 0x1000000, 0x10000, 0x100, 1]

/-- The components, most significant first. -/
def components (g : Guid) : Components where
  data1 := g.value / weight1 % 0x100000000
  data2 := g.value / weight2 % 0x10000
  data3 := g.value / weight3 % 0x10000
  data4 := byteWeights.map fun w => g.value / w % 0x100

/-- The 32 hexadecimal digits in groups of 8, 4, 4, 4 and 12. -/
def textChars (g : Guid) : List Char :=
  let ds := Text.hexDigits 32 g.value
  ds.take 8 ++ '-' :: (ds.drop 8).take 4 ++ '-' :: (ds.drop 12).take 4 ++
    '-' :: (ds.drop 16).take 4 ++ '-' :: ds.drop 20

/-- The written form of an identity. -/
def text (g : Guid) : String := .ofList g.textChars

def shown (g : Guid) : String := "TypeGuid(" ++ Text.quoted g.text ++ ")"

/-- An identity in code, as a call with its components. -/
def code (g : Guid) : String :=
  let c := g.components
  "::windows::Guid::from_values(0x" ++ Text.hexText 8 c.data1 ++ ", 0x" ++ Text.hexText 4 c.data2 ++
    ", 0x" ++ Text.hexText 4 c.data3 ++ ", [" ++
    ", ".intercalate (c.data4.map fun b => "0x" ++ Text.hexText 2 b) ++ "])"

/-! ### Reading -/

/-- The text without any occurrence of `pattern`, from left to right; the count is of characters
of an occurrence still to be passed over. -/
def removeAll (pattern : List Char) : Nat → List Char → List Char
  | _, [] => []
  | skip + 1, _ :: rest => removeAll pattern skip rest
  | 0, c :: rest =>
    if pattern.isPrefixOf (c :: rest) then removeAll pattern (pattern.length - 1) rest
    else c :: removeAll pattern 0 rest

def isBrace (c : Char) : Bool := c = '\x7b' || c = '\x7d'

/-- The digits of an identity, without scheme names, surrounding brackets and hyphens. -/
def stripped (cs : List Char) : List Char :=
  let cs := removeAll "urn:".toList 0 (Text.trimBoth isBrace cs)
  let cs := removeAll "uuid:".toList 0 cs
  (Text.trimBoth isBrace cs).filter (· ≠ '-')

/-- Hexadecimal digits, at least one, with single underscores allowed between them; the first
argument tells whether a digit stands just before. -/
def underscoredDigits? : Bool → List Char → Option (List Char)
  | afterDigit, [] => if afterDigit then some [] else none
  | afterDigit, c :: rest =>
    if c = '_' then if afterDigit then underscoredDigits? false rest else none
    else if Text.isHexDigit c then (underscoredDigits? true rest).map (c :: ·)
    else none

/-- A mark of base sixteen in front of digits, with an underscore after it, is passed over. -/
def dropBase : List Char → List Char
  | '0' :: 'x' :: '_' :: rest | '0' :: 'X' :: '_' :: rest => rest
  | '0' :: 'x' :: rest | '0' :: 'X' :: rest => rest
  | cs => cs

/-- The number that a hexadecimal numeral stands for: an optional plus sign, an optional mark of the
base and digits, with blanks around. -/
def readHex? (cs : List Char) : Option Nat := do
  let cs ← Text.normaliseNumeral? cs
  let cs := match cs with | '+' :: rest => rest | cs => cs
  let ds ← underscoredDigits? false (dropBase cs)
  some (Text.hexNumber ds)

def ofText (s : String) : Except Error Guid :=
  let cs := stripped s.toList
  if cs.length ≠ 32 then .error .guidLength
  else
    match readHex? cs with
    | some n => ofInt n
    | none => .error (.guidDigits (.ofList cs))

/-- Bitwise or of whole numbers in two's complement. -/
def bitOr : Int → Int → Int
  | .ofNat a, .ofNat b => .ofNat (a ||| b)
  | .ofNat a, .negSucc b => .negSucc (b - (b &&& a))
  | .negSucc a, .ofNat b => .negSucc (a - (a &&& b))
  | .negSucc a, .negSucc b => .negSucc (a &&& b)

/-- The identity with eleven given components.  None may be too large; that none is negative shows
only when they are put together. -/
def ofComponents (args : List Value) (data1 data2 data3 : Int) (data4 : List Int) :
    Except Error Guid :=
  if data1 ≥ 0x100000000 || data2 ≥ 0x10000 || data3 ≥ 0x10000 || data4.any (· ≥ 0x100) then
    .error (.guidComponent args)
  else
    let high := bitOr (bitOr (data1 * weight1) (data2 * weight2)) (data3 * weight3)
    let shifted := data4.zipWith (fun (b : Int) (w : Nat) => b * w) byteWeights
    ofInt (shifted.foldl bitOr high)

/-- The identity that the arguments of an attribute give: one text, or eleven components. -/
def ofArgs (args : List Value) : Except Error Guid :=
  match args with
  | [.text s] =>
    match ofText s with
    | .ok g => .ok g
    | .error _ => .error (.guidText s)
  | _ =>
    match args.mapM Value.int? with
    | some (data1 :: data2 :: data3 :: data4) =>
      if data4.length = 8 then ofComponents args data1 data2 data3 data4
      else .error (.guidArguments args)
    | _ => .error (.guidArguments args)

/-- The name of the attribute that gives a definition its identity. -/
def attributeName : String := "Guid"

def ofDefinition (d : Definition) : Except Error Guid :=
  match d.attribute? attributeName with
  | none => .ok absent
  | some a => ofArgs a.args

end Guid

end Bindery
