import Worksheet.CommandLine.Program

/-! The program on the disk and the terminal. -/
namespace Worksheet.CommandLine

/-- The system's code of a wrong type comes with either sign. -/
def fileError : IO.Error → FileError
  | .noFileOrDirectory _ _ _ => .missing
  | .alreadyExists _ _ _ => .present
  | .inappropriateType _ code _ => if code = 20 ∨ code = -20 then .notDirectory else .isDirectory
  | e => .other (toString e)

def attempt {α : Type} (action : IO α) : IO (Except FileError α) := do
  try return .ok (← action)
  catch e => return .error (fileError e)

def disk : FileSystem IO where
  read path := attempt (IO.FS.readFile path)
  write path text := attempt (IO.FS.writeFile path text)
  createDirectory path := attempt (IO.FS.createDirAll path)
  rename source target := attempt (IO.FS.rename source target)

def ownDirectory? (name fallback : String) : IO (Option String) := do
  let named := (← IO.getEnv name).filter (·.startsWith "/")
  let home := (← IO.getEnv "HOME").filter (· ≠ "")
  let base := named <|> home.map (· ++ "/" ++ fallback)
  return base.map (· ++ "/" ++ programName)

def places : IO Places := do
  let config ← ownDirectory? "XDG_CONFIG_HOME" ".config"
  let data ← ownDirectory? "XDG_DATA_HOME" ".local/share"
  return ⟨config.map (· ++ "/config.toml"), data⟩

def report (notices : List Notice) : IO Unit := notices.forM fun n => IO.eprintln n.record

def printResult : Except Failure String → IO UInt32
  | .ok text => do
    IO.print text
    return 0
  | .error failure => do
    IO.eprintln ("Error: " ++ failure.message)
    if let some cause := failure.cause? then IO.eprintln ("\nCaused by:\n    " ++ cause)
    return 1

/-- Answers each line as it comes. -/
partial def converse (saved : SavedSheet IO) : IO Unit := do
  let line ← (← IO.getStdin).getLine
  unless line.isEmpty do
    let answer ← Session.answer saved line
    report answer.notices
    match answer.reply with
    | .quit => return
    | .silent => converse answer.saved
    | .line text =>
      IO.println text
      (← IO.getStdout).flush
      converse answer.saved

def start (options : Options) (command : Command) : IO UInt32 := do
  if command = .session then
    match ← openSheet disk (← places) options with
    | .error failure => printResult (.error failure)
    | .ok (saved, notices) =>
      report notices
      converse saved
      return 0
  else
    let outcome ← run disk (← places) options command []
    report outcome.notices
    printResult outcome.result

end Worksheet.CommandLine

open Worksheet.CommandLine in
def main (arguments : List String) : IO UInt32 := do
  match read arguments with
  | .ok (options, command) => start options command
  | .error .version =>
    IO.println version
    return 0
  | .error .help =>
    IO.println usage
    return 0
  | .error .usage =>
    IO.eprintln usage
    return 2
