import Bindery.Error
/-!
# What a command does to its surroundings

A command reads texts, makes directories, writes files and prints lines.  It is written for any host
that can do these things: a real file system, or a workspace in memory.
-/

namespace Bindery.Command

inductive FileFault
  | notFound
  | alreadyThere
  | notDirectory
  | isDirectory
  | nameTooLong
  /-- A path holds a character that no file name can have. -/
  | nullCharacter
  /-- The bytes of a file are no text. -/
  | undecodable
  deriving DecidableEq, Repr

/-- The number and the words of a fault. -/
def FileFault.reason : FileFault → String
  | notFound => "[Errno 2] No such file or directory"
  | alreadyThere => "[Errno 17] File exists"
  | notDirectory => "[Errno 20] Not a directory"
  | isDirectory => "[Errno 21] Is a directory"
  | nameTooLong => "[Errno 36] File name too long"
  | nullCharacter => "embedded null byte"
  | undecodable => "invalid text"

/-- Whether a fault is one of the file system; the others are in the path or the text itself. -/
def FileFault.ofSystem : FileFault → Bool
  | nullCharacter | undecodable => false
  | _ => true

/-- A fault with the file it is about. -/
def FileFault.message (f : FileFault) (path : String) : String :=
  f.reason ++ ": " ++ Text.quoted path

/-- What a command can do. -/
class Host (m : Type → Type) where
  read : String → m (Except FileFault String)
  /-- Make a directory and all above it, as far as they are missing. -/
  makeDirectories : String → m (Except FileFault Unit)
  /-- Give a file a new text. -/
  write : String → String → m (Except FileFault Unit)
  say : String → m Unit

/-! ### Paths -/

/-- The path of a file in a directory. -/
def joinPath (directory file : String) : String :=
  if file.toList.head? = some '/' ∨ directory = "" then file
  else if directory.toList.getLast? = some '/' then directory ++ file
  else directory ++ "/" ++ file

/-- The characters of a path behind the last slash. -/
def lastPart (path : List Char) : List Char :=
  (path.reverse.takeWhile (· ≠ '/')).reverse

/-- The directory part of a path, without the slashes at its end unless it has nothing else. -/
def directoryOf (path : String) : String :=
  let cs := path.toList
  let head := cs.take (cs.length - (lastPart cs).length)
  let trimmed := (head.reverse.dropWhile (· = '/')).reverse
  .ofList (if trimmed.isEmpty then head else trimmed)

/-- The name of a file without its directory and its last extension.  Dots at the beginning do not
start an extension. -/
def baseName (path : String) : String :=
  let name := lastPart path.toList
  let dots := name.takeWhile (· = '.')
  let rest := name.dropWhile (· = '.')
  let stem := (rest.reverse.dropWhile (· ≠ '.')).drop 1 |>.reverse
  .ofList (if '.' ∈ rest then dots ++ stem else name)

end Bindery.Command
