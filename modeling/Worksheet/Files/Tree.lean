import Worksheet.Slot.Medium
import Worksheet.Text

/-! A file system held in memory: texts and directories under absolute paths. Paths are resolved
name by name, so an error arises at the first name that causes one. What was done before an error
stays. -/
namespace Worksheet

structure FileTree where
  files : OrderedMap String String
  directories : OrderedSet String
deriving DecidableEq

namespace FileTree

def empty : FileTree := ⟨.empty, .empty⟩

def maxNameBytes : Nat := 255

def maxPathBytes : Nat := 4095

/-- The names of a path from the root down, those of a relative path below the current directory. -/
def names (current path : String) : List String :=
  Text.pieces '/' (if path.startsWith "/" then path else current ++ "/" ++ path)

def checkPath (path : String) : Except FileError Unit :=
  if path.toList.contains '\x00' then
    .error (.other "file name contained an unexpected NUL byte")
  else if maxPathBytes < path.utf8ByteSize then .error .nameTooLong
  else .ok ()

def path (names : List String) : String := String.join (names.map ("/" ++ ·))

def isFile (tree : FileTree) (place : List String) : Bool := tree.files.contains (path place)

def isDirectory (tree : FileTree) (place : List String) : Bool :=
  place.isEmpty || tree.directories.contains (path place)

/-- Where a name leads from a directory. -/
def enter (place : List String) (name : String) : Except FileError (List String) :=
  if name = "" ∨ name = "." then .ok place
  else if name = ".." then .ok place.dropLast
  else if maxNameBytes < name.utf8ByteSize then .error .nameTooLong
  else .ok (place ++ [name])

/-- Where names lead from `place`. Everything but the last place must be a directory. -/
def follow (tree : FileTree) (place : List String) : List String → Except FileError (List String)
  | [] => .ok place
  | name :: rest => do
    if tree.isFile place then .error .notDirectory
    else if tree.isDirectory place then tree.follow (← enter place name) rest
    else .error .missing

/-- Names that stay where they are, one of them a point. Only a directory that is there already is
found under them. -/
def isStay (names : List String) : Bool :=
  names.contains "." && names.all fun name => name = "" || name = "."

/-- Creates every directory on the way, up to an error. -/
def create (tree : FileTree) (place : List String) : List String → FileTree × Except FileError Unit
  | [] => (tree, .ok ())
  | name :: rest =>
    match enter place name with
    | .error e => (tree, .error e)
    | .ok place =>
      if tree.isFile place then (tree, .error (if rest.isEmpty then .present else .notDirectory))
      else if tree.isDirectory place then tree.create place rest
      else if isStay rest then (tree, .error .missing)
      else create { tree with directories := tree.directories.add (path place) } place rest

def read (tree : FileTree) (names : List String) : Except FileError String := do
  let place ← tree.follow [] names
  match tree.files.get? (path place) with
  | some text => .ok text
  | none => .error (if tree.isDirectory place then .isDirectory else .missing)

def write (tree : FileTree) (names : List String) (text : String) : Except FileError FileTree := do
  let place ← tree.follow [] names
  if tree.isDirectory place then .error .isDirectory
  else return { tree with files := tree.files.insert (path place) text }

def rename (tree : FileTree) (source target : List String) : Except FileError FileTree := do
  let text ← tree.read source
  let place ← tree.follow [] source
  write { tree with files := tree.files.filter fun p _ => p ≠ path place } target text

def put (tree : FileTree) (names : List String) (text : String) : FileTree :=
  let tree := (tree.create [] names.dropLast).1
  match tree.write names text with
  | .ok tree => tree
  | .error _ => tree

def filesIn (tree : FileTree) (directory : String) : List (String × String) :=
  tree.files.entries.filterMap fun e =>
    let names := Text.pieces '/' e.1
    if String.intercalate "/" names.dropLast = directory then names.getLast?.map (·, e.2) else none

def update (change : FileTree → Except FileError FileTree) :
    StateM FileTree (Except FileError Unit) := do
  match change (← get) with
  | .ok tree => set tree; return .ok ()
  | .error e => return .error e

def createDirectory (names : List String) : StateM FileTree (Except FileError Unit) := do
  let (tree, result) := (← get).create [] names
  set tree
  return result

def system (current : String) : FileSystem (StateM FileTree) where
  read p := do
    let tree ← get
    return (checkPath p).bind fun _ => tree.read (names current p)
  write p text := update fun tree => (checkPath p).bind fun _ => tree.write (names current p) text
  createDirectory p := do
    match checkPath p with
    | .ok () => createDirectory (names current p)
    | .error e => return .error e
  rename source target := update fun tree => do
    checkPath source
    checkPath target
    tree.rename (names current source) (names current target)

end FileTree

end Worksheet
