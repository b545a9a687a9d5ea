import Worksheet.Sheet
import Worksheet.Table

/-! A session edits a sheet line by line. A line is a label with the text to commit, `get` with a
label, `show`, or `quit` or `exit`. A line that fails is answered by its error. -/
namespace Worksheet.Session

inductive Request where
  | nothing
  | quit
  | table
  | display (label : String)
  | commit (label text : String)
deriving DecidableEq

inductive Reply where
  | silent
  | quit
  | line (text : String)
deriving DecidableEq

/-- The first word of a trimmed line, and the rest without the blanks around it. -/
def words (line : String) : String × String :=
  let cs := (Text.trim line).toList
  (.ofList (cs.takeWhile fun c => !Text.isBlank c),
    Text.trim (.ofList (cs.dropWhile fun c => !Text.isBlank c)))

def request (line : String) : Request :=
  match words line with
  | ("", _) => .nothing
  | ("quit", _) | ("exit", _) => .quit
  | ("show", _) => .table
  | ("get", label) => .display label
  | (label, text) => .commit label text

def failure (message : String) : Reply := .line ("Error: " ++ message)

def table (extent : Extent) (cells : Cells) : String :=
  .ofList (Text.trimEnd (Table.render extent cells).toList)

def displayReply (extent : Extent) (cells : Cells) (label : String) : Reply :=
  if label = "" then failure "Usage: get <LABEL>"
  else
    match extent.cell? label with
    | some p => .line (cells.display p)
    | none => failure (CommitError.unknownLabel label).message

def commitReply (extent : Extent) (label : String) : Except CommitError Cells → Reply
  | .ok cells => .line (label ++ " = " ++ ((extent.cell? label).map cells.display).getD "")
  | .error e => failure e.message

variable {m : Type → Type} [Monad m]

structure Answer (m : Type → Type) where
  reply : Reply
  saved : SavedSheet m
  notices : List Notice

def answer (saved : SavedSheet m) (line : String) : m (Answer m) := do
  match request line with
  | .nothing => return ⟨.silent, saved, []⟩
  | .quit => return ⟨.quit, saved, []⟩
  | .table => return ⟨.line (table saved.extent saved.cells), saved, []⟩
  | .display label => return ⟨displayReply saved.extent saved.cells label, saved, []⟩
  | .commit label text =>
    let committed ← saved.commitLabel label text
    return ⟨commitReply saved.extent label committed.result, committed.saved, committed.notices⟩

def lines (input : String) : List String := Text.pieces '\n' input

structure Transcript (m : Type → Type) where
  printed : List String
  saved : SavedSheet m
  notices : List Notice

def run (saved : SavedSheet m) : List String → m (Transcript m)
  | [] => return ⟨[], saved, []⟩
  | line :: rest => do
    let ⟨reply, saved, notices⟩ ← answer saved line
    match reply with
    | .quit => return ⟨[], saved, notices⟩
    | .silent =>
      let transcript ← run saved rest
      return { transcript with notices := notices ++ transcript.notices }
    | .line text =>
      let transcript ← run saved rest
      return { transcript with
        printed := text :: transcript.printed
        notices := notices ++ transcript.notices }

def output (printed : List String) : String := String.join (printed.map (· ++ "\n"))

end Worksheet.Session
