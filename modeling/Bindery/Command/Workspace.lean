import Bindery.Command.Host
/-!
# Workspaces in memory

A tree of directories and files with what has been printed so far.  A place in it is the list of the
names that lead there from the top.  A path leads from the home directory through its parts, or from
the top if it begins with a slash.
-/

namespace Bindery.Command

/-- What is at a place: a directory, or a file with its text, if its bytes are one. -/
inductive Node
  | directory
  | file (text : Option String)
  deriving DecidableEq, Repr

/-- A workspace: what is at each place, the home directory, and the printed lines. -/
structure Workspace where
  nodes : List (List String × Node)
  home : List String
  printed : List String

namespace Workspace

/-- What is at a place.  The top is a directory. -/
def node? (w : Workspace) (place : List String) : Option Node :=
  if place.isEmpty then some .directory else w.nodes.lookup place

/-- The workspace with something else at a place. -/
def put (w : Workspace) (place : List String) (n : Node) : Workspace :=
  { w with nodes := (place, n) :: w.nodes.filter (·.1 ≠ place) }

/-- The workspace with a directory at a place and at every place on the way. -/
def withDirectory (w : Workspace) (place : List String) : Workspace :=
  (List.range place.length).foldl (fun w k => w.put (place.take (k + 1)) .directory) w

/-- A workspace with nothing but a home directory. -/
def empty (home : List String) : Workspace := withDirectory ⟨[], home, []⟩ home

/-! ### Paths -/

/-- The greatest number of bytes in the name of a file. -/
def nameLimit : Nat := 255

/-- The number of bytes that a path cannot have. -/
def pathLimit : Nat := 4096

/-- The parts of a path between its slashes. -/
def parts (path : String) : List String := (path.toList.splitOn '/').map .ofList

/-- Whether a text holds the character that no file name can have. -/
def hasNull (text : String) : Bool := '\x00' ∈ text.toList

/-- Where a path starts. -/
def start (w : Workspace) (path : String) : List String :=
  if path.toList.head? = some '/' then [] else w.home

def parts? (path : String) : Except FileFault (List String) :=
  if path = "" then .error .notFound
  else if pathLimit ≤ path.utf8ByteSize then .error .nameTooLong
  else .ok (parts path)

/-- The place to which parts lead from another.  Everything on the way must be a directory. -/
def follow (w : Workspace) (place : List String) : List String → Except FileFault (List String)
  | [] => .ok place
  | part :: rest =>
    match w.node? place with
    | none => .error .notFound
    | some (.file _) => .error .notDirectory
    | some .directory =>
      if part = "" ∨ part = "." then follow w place rest
      else if part = ".." then follow w place.dropLast rest
      else if nameLimit < part.utf8ByteSize then .error .nameTooLong
      else follow w (place ++ [part]) rest

/-- The place to which a path leads. -/
def locate (w : Workspace) (path : String) : Except FileFault (List String) := do
  if hasNull path then throw .nullCharacter
  w.follow (w.start path) (← parts? path)

/-! ### Files and directories -/

def read (w : Workspace) (path : String) : Except FileFault String := do
  match w.node? (← w.locate path) with
  | none => .error .notFound
  | some .directory => .error .isDirectory
  | some (.file (some text)) => .ok text
  | some (.file none) => .error .undecodable

def write (w : Workspace) (path text : String) : Except FileFault Workspace := do
  let place ← w.locate path
  match w.node? place with
  | some .directory => .error .isDirectory
  | _ => .ok (w.put place (.file (some text)))

/-- Why a file cannot be a directory on the way, given the parts behind it. -/
def behindFile (rest : List String) : FileFault :=
  match rest.find? (· ≠ "") with
  | none => .alreadyThere
  | some part => if hasNull part then .nullCharacter else .notDirectory

/-- The workspace with the directories to which parts lead from a place, made one by one. -/
def extend (w : Workspace) (place : List String) : List String → Except FileFault Workspace
  | [] => .ok w
  | part :: rest =>
    if part = "" ∨ part = "." then extend w place rest
    else if part = ".." then extend w place.dropLast rest
    else if hasNull part then .error .nullCharacter
    else if nameLimit < part.utf8ByteSize then .error .nameTooLong
    else
      let place := place ++ [part]
      match w.node? place with
      | some .directory => extend w place rest
      | some (.file _) => .error (behindFile rest)
      | none => extend (w.put place .directory) place rest

/-- The workspace with a directory and all above it. -/
def makeDirectories (w : Workspace) (path : String) : Except FileFault Workspace := do
  w.extend (w.start path) (← parts? path)

/-- Change the workspace if that is possible. -/
def change (f : Workspace → Except FileFault Workspace) :
    StateM Workspace (Except FileFault Unit) := fun w =>
  match f w with
  | .ok w' => (.ok (), w')
  | .error e => (.error e, w)

/-- A workspace is a host: files and lines are kept in its state. -/
instance : Host (StateM Workspace) where
  read path := fun w => (w.read path, w)
  makeDirectories path := change (·.makeDirectories path)
  write path text := change (·.write path text)
  say line := modify fun w => { w with printed := w.printed ++ [line] }

end Workspace

end Bindery.Command
