import Bindery.Code.File
import Bindery.Command.Host
import Bindery.Metadata.Reading
import Bindery.Model.Building
import Bindery.Model.Document
import Bindery.Model.Order
/-!
# Conversions

The conversion of a metadata file in three steps: load the file, build and order the models, write
the code.  Each step tells whether it was done.  Faults in the metadata and unreadable files are
reported in a printed line; any other failure ends the conversion at once.
-/

namespace Bindery.Command

/-- A failure that is not reported in a printed line. -/
inductive Failure
  | error (e : Error)
  | file (f : FileFault)
  deriving DecidableEq, Repr

/-- What is converted, and where the code goes. -/
structure Settings where
  input : String
  output : String
  /-- The namespace to which the conversion is limited. -/
  space : Option String
  outputName : String
  verbose : Bool

namespace Settings

def codePath (s : Settings) : String := joinPath s.output (s.outputName ++ ".rs")

def documentPath (s : Settings) : String := joinPath s.output (s.outputName ++ "_model.json")

end Settings

/-- A conversion and how far it has come.  The models belong to the registry they were built from,
which may be an earlier one than the registry loaded last. -/
structure Conversion where
  settings : Settings
  loaded : Option Registry
  models : List Model
  source : Registry

namespace Conversion

/-- A conversion before its first step.  The code is named after the input unless a name is given. -/
def start (input output : String) (space outputName : Option String) (verbose : Bool) :
    Conversion where
  settings := { input, output, space, outputName := outputName.getD (baseName input), verbose }
  loaded := none
  models := []
  source := .empty

/-- A step of a conversion on a host. -/
abbrev Step (m : Type → Type) := ExceptT Failure (StateT Conversion m)

section

variable {m : Type → Type} [Monad m] [Host m]

/-! ### Parts of steps -/

def say (line : String) : Step m Unit := liftM (Host.say line : m Unit)

/-- Tell what is done, if that is wanted. -/
def tell (c : Conversion) (text : String) : Step m Unit :=
  if c.settings.verbose then say (Traced.debugLine text) else pure ()

/-- The result of a traced computation; its log is printed if that is wanted. -/
def watch {α : Type} (c : Conversion) (t : Traced α) : Step m (Except Error α) := do
  if c.settings.verbose then t.log.forM say
  return t.result

def must {α : Type} (operation : m (Except FileFault α)) : Step m α := do
  match ← (liftM operation : Step m (Except FileFault α)) with
  | .ok a => return a
  | .error f => throw (.file f)

def mustSucceed {α : Type} (r : Except Error α) : Step m α :=
  match r with
  | .ok a => return a
  | .error e => throw (.error e)

/-- Report a failure and end the step. -/
def refuse (message : String) : Step m Bool := do
  say ("Error: " ++ message)
  return false

/-- Report a fault of the metadata; any other error is a failure. -/
def report (e : Error) : Step m Bool :=
  match e.kind with
  | .metadata | .anonymousName | .cycle => refuse e.message
  | _ => throw (.error e)

/-- What is said when a step needs metadata and there is none. -/
def nothingLoaded : String := "No metadata loaded. Load input file first."

/-- Carriage returns, alone or before a line feed, become line feeds. -/
def unifyLineEnds : List Char → List Char
  | [] => []
  | '\x0d' :: '\n' :: rest => '\n' :: unifyLineEnds rest
  | '\x0d' :: rest => '\n' :: unifyLineEnds rest
  | c :: rest => c :: unifyLineEnds rest

/-! ### Steps -/

def load : Step m Bool := do
  let c ← get
  let path := c.settings.input
  match ← (liftM (Host.read path : m (Except FileFault String)) : Step m (Except FileFault String)) with
  | .error f => if f.ofSystem then refuse (f.message path) else throw (.file f)
  | .ok text =>
    let traced := Registry.ofText path (.ofList (unifyLineEnds text.toList))
    match ← watch c traced with
    | .ok reg =>
      set { c with loaded := some reg }
      return true
    | .error e => report e

/-- The structs and unions to convert. -/
def targets (reg : Registry) (space : Option String) : List TypeName :=
  reg.entries.filterMap fun e =>
    if e.definition.category = .struct ∧ space.all (e.space = ·) then
      some (.ofDefinition e.place e.definition)
    else none

/-- The models of definitions, ordered so that each comes after those it holds by value. -/
def orderedModels (reg : Registry) (names : List TypeName) : Traced (List Model) := do
  let models ← names.mapM reg.build
  sortModels models

def build : Step m Bool := do
  let c ← get
  match c.loaded with
  | none => refuse nothingLoaded
  | some reg =>
    let names := targets reg c.settings.space
    match c.settings.space, names with
    | some space, [] => refuse ("No struct definitions found in namespace '" ++ space ++ "'")
    | _, _ =>
      match ← watch c (orderedModels reg names) with
      | .error e => report e
      | .ok models =>
        set { c with models, source := reg }
        tell c ("Model order: " ++ Text.quotedList (models.map (·.name.qualifiedName)))
        return true

/-- Write the models as a document. -/
def writeDocument (c : Conversion) : Step m Unit := do
  let path := c.settings.documentPath
  let directory := directoryOf path
  if directory ≠ "" then must (Host.makeDirectories directory)
  must (Host.write path ((Json.array (c.models.map (·.document))).render 0))
  tell c ("Model dumped to " ++ path)

/-- Write the code, and the models as a document if that is wanted.  The file is emptied before the
code is made. -/
def generate (dumpModel : Bool) : Step m Bool := do
  let c ← get
  if c.loaded.isNone then refuse nothingLoaded
  else
    must (Host.makeDirectories c.settings.output)
    let path := c.settings.codePath
    must (Host.write path "")
    let text ← mustSucceed (← watch c (Code.fileText c.source c.models))
    must (Host.write path text)
    tell c ("Wrote " ++ path)
    if dumpModel then writeDocument c
    return true

end

end Conversion

end Bindery.Command
