import Bindery.Command.Run
/-!
# The program

The command on the real file system, with the arguments and the environment of the process.
-/

namespace Bindery

open Command

/-- The number of the system for a directory where a file should be. -/
def directoryCode : UInt32 := 21

/-- The fault that an error of the system stands for.  The system gives its numbers with either
sign. -/
def faultOf : IO.Error → FileFault
  | .noFileOrDirectory .. | .noSuchThing .. => .notFound
  | .alreadyExists .. => .alreadyThere
  | .inappropriateType _ code _ =>
    if code = directoryCode ∨ code = 0 - directoryCode then .isDirectory else .notDirectory
  | .invalidArgument .. => .nameTooLong
  | _ => .notDirectory

/-- An operation of the system with its faults. -/
def attempt {α : Type} (operation : IO α) : IO (Except FileFault α) := do
  try return .ok (← operation)
  catch e => return .error (faultOf e)

/-- The real file system is a host. -/
instance : Host IO where
  read path := do
    match ← attempt (IO.FS.readBinFile path) with
    | .error f => return .error f
    | .ok bytes =>
      match String.fromUTF8? bytes with
      | some text => return .ok text
      | none => return .error .undecodable
  makeDirectories path := attempt (IO.FS.createDirAll path)
  write path text := attempt (IO.FS.writeFile path text)
  say line := IO.println line

/-- The variables of the environment that the command looks at. -/
def environmentNames : List String :=
  ["SW_INPUT_FILE", "SW_OUTPUT_DIR", "SW_NAMESPACE", "SW_OUTPUT_NAME", "SW_VERBOSE"]

/-- The message of a failure that the command does not report itself. -/
def failureMessage : Failure → String
  | .error e => e.message
  | .file f => f.reason

end Bindery

open Bindery Bindery.Command in
/-- Run the command and leave its exit code behind. -/
def main (args : List String) : IO UInt32 := do
  let values ← environmentNames.mapM fun name => return (name, ← IO.getEnv name)
  let outcome ← run args fun name => (values.lookup name).join
  if let .broken f := outcome then IO.eprintln (failureMessage f)
  return outcome.exitCode
