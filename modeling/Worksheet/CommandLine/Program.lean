import Worksheet.CommandLine.Arguments
import Worksheet.Session
import Worksheet.Settings.Toml

/-! A run of the program opens the saved sheet that the options and the settings file name, and
carries out one command on it. -/
namespace Worksheet.CommandLine

def programName : String := "gridcalc"

def version : String := programName ++ " 0.1.0"

def usage : String :=
  "Usage: " ++ programName ++ " [OPTIONS] <set|get|show|dump|repl|functions>"

structure Places where
  config : Option String
  data : Option String

inductive Failure where
  | unreadableConfig (path : String) (reason : FileError)
  | malformedConfig (path : String)
  | noDataDirectory
  | notOpened (reason : Settings.Invalid)
  | unknownLabel (label : String)
  | notSet (label : String) (reason : CommitError)
deriving DecidableEq

def Failure.message : Failure → String
  | unreadableConfig path _ => "Failed to read config " ++ path
  | malformedConfig path => "Failed to parse config " ++ path
  | noDataDirectory => "Could not determine a data directory; pass --data-dir"
  | notOpened _ => "Failed to open grid"
  | unknownLabel label => (CommitError.unknownLabel label).message
  | notSet label _ => "Failed to set " ++ label

def Failure.cause? : Failure → Option String
  | unreadableConfig _ reason => some reason.message
  | notOpened reason => some reason.message
  | notSet _ reason => some reason.message
  | _ => none

/-- Options take precedence over the settings file. -/
def Options.override (o : Options) (settings : Settings) : Settings where
  rows := o.rows.getD settings.rows
  cols := o.cols.getD settings.cols
  slot := o.slot.getD settings.slot
  recalculation := o.recalculation.getD settings.recalculation
  unresolved := if o.strict then .error else settings.unresolved

section

variable {m : Type → Type} [Monad m] (files : FileSystem m)

def readSettings (path : String) : m (Except Failure Settings) := do
  match ← files.read path with
  | .ok text => return (Settings.ofToml? text).elim (.error (.malformedConfig path)) .ok
  | .error e => return .error (.unreadableConfig path e)

/-- The settings file that an option names must be there; the usual one need not. -/
def settings (places : Places) (o : Options) : m (Except Failure Settings) := do
  match o.config, places.config with
  | some path, _ => readSettings files path
  | none, some path =>
    match ← readSettings files path with
    | .error (.unreadableConfig _ .missing) | .error (.unreadableConfig _ .notDirectory) =>
      return .ok .default
    | result => return result
  | none, none => return .ok .default

def medium? (places : Places) (o : Options) : Except Failure (Option (Medium m)) :=
  if o.ephemeral then .ok none
  else
    match o.dataDirectory <|> places.data with
    | some directory => .ok (some (.directory files directory))
    | none => .error .noDataDirectory

def openSheet (places : Places) (o : Options) :
    m (Except Failure (SavedSheet m × List Notice)) := do
  match ← settings files places o, medium? files places o with
  | .error e, _ | .ok _, .error e => return .error e
  | .ok settings, .ok medium =>
    match ← SavedSheet.load (o.override settings) evaluate medium with
    | .ok opened => return .ok opened
    | .error e => return .error (.notOpened e)

end

/-- What a run leaves: what it printed or why it failed, and what to report. -/
structure Outcome where
  result : Except Failure String
  notices : List Notice

def line (text : String) : String := text ++ "\n"

def functionList : String :=
  let width := (Function.documented.map fun f => f.signature.length).foldl max 0
  String.join <| Function.documented.map fun f =>
    line (.ofList (Table.padEnd width f.signature.toList) ++ "  " ++ f.description)

section

variable {m : Type → Type} [Monad m]

def setOutcome (label : String) (committed : SavedSheet.Committed m) : Outcome where
  result :=
    match committed.result with
    | .ok cells => .ok (line (((committed.saved.extent.cell? label).map cells.display).getD ""))
    | .error (.unknownLabel label) => .error (.unknownLabel label)
    | .error e => .error (.notSet label e)
  notices := committed.notices

def shown (saved : SavedSheet m) (label : String) (raw : Bool) : Except Failure String :=
  match saved.extent.cell? label with
  | some p =>
    let cell := saved.cells.cell p
    .ok (line (if raw then cell.raw else cell.display))
  | none => .error (.unknownLabel label)

/-- Carries out a command on an open sheet. A session gets its lines from `input`. -/
def perform (saved : SavedSheet m) (input : List String) : Command → m Outcome
  | .set label words => return setOutcome label (← saved.commitLabel label (" ".intercalate words))
  | .get label raw => return ⟨shown saved label raw, []⟩
  | .table => return ⟨.ok (Table.render saved.extent saved.cells), []⟩
  | .dump => return ⟨.ok (line (Slot.encode saved.cells)), []⟩
  | .session => do
    let transcript ← Session.run saved input
    return ⟨.ok (Session.output transcript.printed), transcript.notices⟩
  | .functions => return ⟨.ok functionList, []⟩

/-- The functions are listed without opening a sheet. -/
def run (files : FileSystem m) (places : Places) (o : Options) (command : Command)
    (input : List String) : m Outcome := do
  if command = .functions then return ⟨.ok functionList, []⟩
  else
    match ← openSheet files places o with
    | .error e => return ⟨.error e, []⟩
    | .ok (saved, notices) =>
      let outcome ← perform saved input command
      return { outcome with notices := notices ++ outcome.notices }

end

end Worksheet.CommandLine
