import Bindery.Command.Arguments
import Bindery.Command.Conversion
import Bindery.Text.Blank
/-!
# The command

The command reads its arguments, lets variables of the environment take their place, and runs the
three steps of a conversion until one is not done.
-/

namespace Bindery.Command

/-- How the command ends. -/
inductive Outcome
  | success
  /-- The end that is reported in a printed line. -/
  | failed
  | misused
  | broken (f : Failure)
  deriving DecidableEq, Repr

def Outcome.exitCode : Outcome → UInt32
  | success => 0
  | failed | broken _ => 1
  | misused => 2

/-- Whether a variable of the environment says yes. -/
def saysYes (text : String) : Bool :=
  let word := String.ofList ((Text.trimBoth Text.isBlank text.toList).map Char.toLower)
  word ∈ ["1", "true", "yes", "on"]

/-- The arguments with the variables of the environment in their place. -/
def Arguments.override (a : Arguments) (env : String → Option String) : Arguments where
  input := (env "SW_INPUT_FILE").or a.input
  output := (env "SW_OUTPUT_DIR").or a.output
  space := (env "SW_NAMESPACE").or a.space
  outputName := (env "SW_OUTPUT_NAME").or a.outputName
  dumpModel := a.dumpModel
  verbose := (env "SW_VERBOSE").elim a.verbose saysYes

section

variable {m : Type → Type} [Monad m] [Host m]

/-- The three steps; none is tried after one that was not done. -/
def convert (dumpModel : Bool) : Conversion.Step m Bool := do
  if !(← Conversion.load) then return false
  if !(← Conversion.build) then return false
  Conversion.generate dumpModel

def run (args : List String) (env : String → Option String) : m Outcome := do
  match readArguments args with
  | .error .misuse => return .misused
  | .error .helpWanted => return .success
  | .ok a =>
    let a := a.override env
    let input := a.input.getD ""
    let output := a.output.getD ""
    if input = "" ∨ output = "" then
      Host.say "Error: --input and --output are required"
      return .failed
    let start := Conversion.start input output a.space a.outputName a.verbose
    let (result, _) ← (convert a.dumpModel).run.run start
    match result with
    | .error f => return .broken f
    | .ok false => return .failed
    | .ok true =>
      Host.say "Struct conversion completed successfully."
      return .success

end

end Bindery.Command
