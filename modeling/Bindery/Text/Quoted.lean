import Bindery.Text.Numeral
import Bindery.Text.Printable
/-!
# Quoted text

How a text is shown in a message: between single quotes, or between double quotes if it holds a
single quote and no double one.  The quote in use and the backslash take a backslash; characters
that cannot be printed are shown by their code.
-/

namespace Bindery.Text

def singleQuote : Char := '\x27'

def doubleQuote : Char := '\x22'

/-- The quote that surrounds a text. -/
def quoteFor (cs : List Char) : Char :=
  if singleQuote ∈ cs ∧ doubleQuote ∉ cs then doubleQuote else singleQuote

/-- How one character is shown between two quotes. -/
def showChar (quote c : Char) : List Char :=
  if c = quote ∨ c = '\\' then ['\\', c]
  else if c = '\t' then ['\\', 't']
  else if c = '\n' then ['\\', 'n']
  else if c = '\x0d' then ['\\', 'r']
  else if isPrintable c then [c]
  else if c.toNat < 0x100 then '\\' :: 'x' :: hexDigits 2 c.toNat
  else if c.toNat < 0x10000 then '\\' :: 'u' :: hexDigits 4 c.toNat
  else '\\' :: 'U' :: hexDigits 8 c.toNat

def showQuoted (cs : List Char) : List Char :=
  let quote := quoteFor cs
  quote :: cs.flatMap (showChar quote) ++ [quote]

def quoted (text : String) : String :=
  .ofList (showQuoted text.toList)

/-- A list of shown items between square brackets. -/
def bracketed (items : List String) : String :=
  "[" ++ ", ".intercalate items ++ "]"

def quotedList (texts : List String) : String :=
  bracketed (texts.map quoted)

end Bindery.Text
