import Worksheet.OrderedMap

/-! A medium keeps the texts of named slots. It may refuse to read or to write. In a directory of a
file system each slot is a file. A write goes to a temporary file first, which then takes the place
of the slot's file, so that a write that is cut short leaves the slot as it was. -/
namespace Worksheet

inductive FileError where
  | missing
  | present
  | notDirectory
  | isDirectory
  | nameTooLong
  | readOnly
  | other (reason : String)
deriving DecidableEq

def FileError.message : FileError → String
  | missing => "No such file or directory (os error 2)"
  | present => "File exists (os error 17)"
  | notDirectory => "Not a directory (os error 20)"
  | isDirectory => "Is a directory (os error 21)"
  | nameTooLong => "File name too long (os error 36)"
  | readOnly => "read-only"
  | other reason => reason

structure FileSystem (m : Type → Type) where
  read : String → m (Except FileError String)
  write : String → String → m (Except FileError Unit)
  /-- Creates a directory together with the directories above it. -/
  createDirectory : String → m (Except FileError Unit)
  rename : String → String → m (Except FileError Unit)

structure Medium (m : Type → Type) where
  /-- There is no text in a slot that was never written. -/
  read : String → m (Except FileError (Option String))
  write : String → String → m (Except FileError Unit)

/-- Slots held in memory. -/
abbrev Shelf := OrderedMap String String

namespace Medium

def memory : Medium (StateM Shelf) where
  read slot := return .ok ((← get).get? slot)
  write slot text := do
    modify (·.insert slot text)
    return .ok ()

/-- Holds nothing and takes nothing. -/
def readOnly {m : Type → Type} [Monad m] : Medium m where
  read _ := return .ok none
  write _ _ := return .error .readOnly

/-- Fails to read, and takes texts without keeping them. -/
def unreadable {m : Type → Type} [Monad m] (reason : FileError) : Medium m where
  read _ := return .error reason
  write _ _ := return .ok ()

end Medium

namespace Slot

def fileName (slot : String) : String := slot ++ ".json"

def temporaryName (slot : String) : String := "." ++ slot ++ ".json.tmp"

inductive Step where
  | createDirectory
  | writeTemporary (slot text : String)
  | replace (slot : String)
deriving DecidableEq

def writing (slot text : String) : List Step :=
  [.createDirectory, .writeTemporary slot text, .replace slot]

/-- A name that starts with a slash is a path of its own. The empty path is the current directory.
-/
def inside (directory name : String) : String :=
  if name.startsWith "/" then name
  else if directory.isEmpty || directory.endsWith "/" then directory ++ name
  else directory ++ "/" ++ name

variable {m : Type → Type} [Monad m]

def Step.perform (files : FileSystem m) (directory : String) : Step → m (Except FileError Unit)
  | createDirectory => files.createDirectory directory
  | writeTemporary slot text => files.write (inside directory (temporaryName slot)) text
  | replace slot =>
    files.rename (inside directory (temporaryName slot)) (inside directory (fileName slot))

def perform (files : FileSystem m) (directory : String) : List Step → m (Except FileError Unit)
  | [] => return .ok ()
  | step :: rest => do
    match ← step.perform files directory with
    | .ok () => perform files directory rest
    | .error e => return .error e

end Slot

/-- A file that is missing is a slot that was never written. -/
def Medium.directory {m : Type → Type} [Monad m] (files : FileSystem m) (directory : String) :
    Medium m where
  read slot := do
    match ← files.read (Slot.inside directory (Slot.fileName slot)) with
    | .ok text => return .ok (some text)
    | .error .missing => return .ok none
    | .error e => return .error e
  write slot text := Slot.perform files directory (Slot.writing slot text)

end Worksheet
