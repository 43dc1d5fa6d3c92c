import Bindery.Decimal.Written
import Bindery.Text.Numeral
import Bindery.Value
/-!
# JSON documents

JSON values and their text, indented by two spaces.  Characters beyond ASCII are written by their
UTF-16 code units; numbers keep the shortest decimal form, and infinities and what is no number have
words of their own.
-/

namespace Bindery

/-- A JSON value. -/
inductive Json
  | null
  | bool (b : Bool)
  | int (n : Int)
  | double (x : Double)
  | text (s : String)
  | array (items : List Json)
  | object (fields : List (String × Json))

namespace Json

def ofValue : Value → Json
  | .int n => int n
  | .double x => double x
  | .text s => text s
  | .bool b => bool b
  | .none => null

def ofText? (s : Option String) : Json := s.elim null text

def numberStyle : Double.Style :=
  { Value.numberStyle with infinity := "Infinity", notANumber := "NaN" }

/-- An escape with the number of a UTF-16 code unit. -/
def unitEscape (n : Nat) : List Char := '\\' :: 'u' :: Text.hexDigits 4 n

/-- A character inside a string.  A character beyond the first plane takes two units. -/
def escapeChar (c : Char) : List Char :=
  if c = '\x22' then ['\\', '\x22']
  else if c = '\\' then ['\\', '\\']
  else if c = '\n' then ['\\', 'n']
  else if c = '\x0d' then ['\\', 'r']
  else if c = '\t' then ['\\', 't']
  else if c = '\x0c' then ['\\', 'f']
  else if c = '\x08' then ['\\', 'b']
  else if ' ' ≤ c ∧ c ≤ '~' then [c]
  else if c.toNat < 0x10000 then unitEscape c.toNat
  else
    let n := c.toNat - 0x10000
    unitEscape (0xd800 + n / 0x400) ++ unitEscape (0xdc00 + n % 0x400)

def stringText (s : String) : String :=
  .ofList ('\x22' :: s.toList.flatMap escapeChar ++ ['\x22'])

/-- The start of a line at a level. -/
def newLine (level : Nat) : String := "\n" ++ String.join (List.replicate level "  ")

/-- Items between brackets, each on a line of its own. -/
def bracketed (left right : String) (level : Nat) (items : List String) : String :=
  if items.isEmpty then left ++ right
  else
    left ++ newLine (level + 1) ++ ("," ++ newLine (level + 1)).intercalate items ++
      newLine level ++ right

mutual

/-- The text of a value that starts at a level of indentation. -/
def render (level : Nat) : Json → String
  | null => "null"
  | bool b => if b then "true" else "false"
  | int n => toString n
  | double x => x.written numberStyle
  | text s => stringText s
  | array items => bracketed "[" "]" level (renderItems (level + 1) items)
  | object fields => bracketed "\x7b" "\x7d" level (renderFields (level + 1) fields)

def renderItems (level : Nat) : List Json → List String
  | [] => []
  | j :: js => j.render level :: renderItems level js

def renderFields (level : Nat) : List (String × Json) → List String
  | [] => []
  | (key, j) :: rest => (stringText key ++ ": " ++ j.render level) :: renderFields level rest

end

end Json

end Bindery
