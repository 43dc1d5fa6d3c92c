import Bindery.Text.Blank
/-!
# Command-line arguments

Options are written in full, by a unique beginning, or by a letter.  A value follows as the next
argument, after an equals sign, or right behind the letter; letters of options without a value can
be put together.  The last value of an option counts.
-/

namespace Bindery.Command

/-! ### Options -/

inductive Switch
  | input | output | space | outputName | dumpModel | verbose | help
  deriving DecidableEq, Repr

/-- The options by their full names. -/
def longNames : List (String × Switch) :=
  [("--input", .input), ("--output", .output), ("--namespace", .space),
   ("--output-name", .outputName), ("--dump-model", .dumpModel), ("--verbose", .verbose),
   ("--help", .help)]

/-- The options by their letters. -/
def shortNames : List (Char × Switch) :=
  [('i', .input), ('o', .output), ('n', .outputName), ('v', .verbose), ('h', .help)]

def Switch.takesValue : Switch → Bool
  | input | output | space | outputName => true
  | dumpModel | verbose | help => false

/-- The mark that ends the options. -/
def endMark : String := "--"

/-- How an option reads the text of its value.  The end mark, attached as a value, leaves the empty
list in its place: a path is then empty, and a name is `[]`. -/
def Switch.reading (s : Switch) (text : String) : String :=
  if text ≠ endMark then text
  else
    match s with
    | input | output => ""
    | _ => "[]"

structure Arguments where
  input : Option String
  output : Option String
  space : Option String
  outputName : Option String
  dumpModel : Bool
  verbose : Bool
  deriving DecidableEq, Repr

namespace Arguments

def empty : Arguments := ⟨none, none, none, none, false, false⟩

/-- The command line with one more value. -/
def withValue (a : Arguments) (value : String) (s : Switch) : Arguments :=
  let value := s.reading value
  match s with
  | .input => { a with input := value }
  | .output => { a with output := value }
  | .space => { a with space := value }
  | .outputName => { a with outputName := value }
  | _ => a

/-- The command line with one more option that has no value. -/
def withFlag (a : Arguments) : Switch → Arguments
  | .dumpModel => { a with dumpModel := true }
  | .verbose => { a with verbose := true }
  | _ => a

end Arguments

/-- Why a command line is not followed. -/
inductive Refusal
  | misuse
  | helpWanted
  deriving DecidableEq, Repr

/-! ### The role of one argument -/

/-- The role of an argument: an option, perhaps with a value behind an equals sign; a letter with
further letters or a value right behind it; or anything else. -/
inductive Token
  | option (s : Switch) (attached : Option String)
  | letters (s : Switch) (behind : List Char)
  | plain (text : String)
  | unknown
  | endOfOptions
  deriving DecidableEq, Repr

/-- The text before the first equals sign, and the text behind it if there is one. -/
def splitEquals (cs : List Char) : List Char × Option (List Char) :=
  match cs.dropWhile (· ≠ '=') with
  | [] => (cs, none)
  | _ :: value => (cs.takeWhile (· ≠ '='), some value)

/-- The options whose full names begin with a text; a full name stands for itself alone. -/
def longMatches (text : List Char) : List Switch :=
  match longNames.find? fun (name, _) => name.toList = text with
  | some (_, s) => [s]
  | none => (longNames.filter fun (name, _) => text.isPrefixOf name.toList).map (·.2)

/-- Whether a text is a negative number, with digits of any script; a line feed may end it. -/
def isNegativeNumber : List Char → Bool
  | '-' :: cs =>
    let cs := if cs.getLast? = some '\n' then cs.dropLast else cs
    match cs.dropWhile Text.isDecimalDigit with
    | [] => !cs.isEmpty
    | '.' :: decimals => !decimals.isEmpty && decimals.all Text.isDecimalDigit
    | _ => false
  | _ => false

/-- An argument that begins like an option and is none: numbers and texts with spaces are plain. -/
def otherwise (cs : List Char) : Token :=
  if isNegativeNumber cs ∨ ' ' ∈ cs then .plain (.ofList cs) else .unknown

/-- The role of an argument that begins with the letter of an option.  An equals sign behind the
letter is passed over; in front of nothing it attaches the empty value. -/
def letterToken (s : Switch) : List Char → Token
  | ['='] => .option s (some "")
  | '=' :: behind => .letters s behind
  | behind => .letters s behind

def classify (arg : String) : Except Refusal Token :=
  match arg.toList with
  | ['-', '-'] => .ok .endOfOptions
  | '-' :: '-' :: rest =>
    let (name, attached) := splitEquals ('-' :: '-' :: rest)
    match longMatches name with
    | [s] => .ok (.option s (attached.map .ofList))
    | [] => .ok (otherwise ('-' :: '-' :: rest))
    | _ => .error .misuse
  | ['-'] => .ok (.plain arg)
  | '-' :: letter :: rest =>
    match shortNames.lookup letter with
    | some s => .ok (letterToken s rest)
    | none => .ok (otherwise ('-' :: letter :: rest))
  | _ => .ok (.plain arg)

/-- The roles of the arguments.  Nothing behind the end of the options has one. -/
def tokens : List String → Except Refusal (List Token)
  | [] => .ok []
  | arg :: rest => do
    let token ← classify arg
    if token = .endOfOptions then return [token] else return token :: (← tokens rest)

/-! ### What one argument asks for -/

/-- What one argument asks for: options without a value, then perhaps an option with a value, which
may be still to come. -/
structure Request where
  flags : List Switch
  valued : Option (Switch × Option String)
  deriving DecidableEq, Repr

/-- What a letter asks for with the text behind it: the letter of an option with a value takes the
text, behind any other letter further letters stand. -/
def lettersRequest (s : Switch) : List Char → Except Refusal Request
  | [] => .ok (if s.takesValue then ⟨[], some (s, none)⟩ else ⟨[s], none⟩)
  | letter :: rest =>
    if s.takesValue then .ok ⟨[], some (s, some (.ofList (letter :: rest)))⟩
    else
      match shortNames.lookup letter with
      | none => .error .misuse
      | some next => (lettersRequest next rest).map fun r => { r with flags := s :: r.flags }

def Token.request : Token → Except Refusal Request
  | option s attached =>
    if s.takesValue then .ok ⟨[], some (s, attached)⟩
    else if attached.isSome then .error .misuse
    else .ok ⟨[s], none⟩
  | letters s behind => lettersRequest s behind
  | plain _ | unknown | endOfOptions => .ok ⟨[], none⟩

/-- Whether an argument has no role of its own. -/
def Token.isStray : Token → Bool
  | option .. | letters .. => false
  | plain _ | unknown | endOfOptions => true

/-! ### The whole command line -/

/-- Follow an option without a value. -/
def followFlag (a : Arguments) (s : Switch) : Except Refusal Arguments :=
  if s = .help then .error .helpWanted else .ok (a.withFlag s)

/-- Follow the arguments from left to right.  An option may be waiting for its value, with the
options without one that came in the same argument.  That an argument is stray shows only at the
end. -/
def follow (stray : Bool) (a : Arguments) :
    Option (List Switch × Switch) → List Token → Except Refusal Arguments
  | none, [] => if stray then .error .misuse else .ok a
  | none, token :: rest => do
    let r ← token.request
    match r.valued with
    | none => follow (stray || token.isStray) (← r.flags.foldlM followFlag a) none rest
    | some (s, some value) =>
      follow stray ((← r.flags.foldlM followFlag a).withValue value s) none rest
    | some (s, none) => follow stray a (some (r.flags, s)) rest
  | some (flags, s), .plain value :: rest => do
    follow stray ((← flags.foldlM followFlag a).withValue value s) none rest
  | some _, _ => .error .misuse

def readArguments (args : List String) : Except Refusal Arguments := do
  follow false .empty none (← tokens args)

end Bindery.Command
