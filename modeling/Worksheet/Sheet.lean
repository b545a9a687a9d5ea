import Worksheet.Recalculation
import Worksheet.Slot.Format
import Worksheet.Slot.Medium

/-! A sheet in memory, and a sheet with the slot it is saved in. A commit stores an entered text,
shows what it evaluates to against the displays of that moment, and then recalculates every formula.
A saved sheet starts from what the slot holds, and every commit writes the whole sheet. A write that
fails leaves the commit in memory, to be saved with the next one. -/
namespace Worksheet

structure Sheet where
  rules : Rules
  grid : Grid rules.extent

namespace Sheet

def extent (sheet : Sheet) : Extent := sheet.rules.extent

def cells (sheet : Sheet) : Cells := sheet.grid.cells

def blank (rules : Rules) : Sheet := ⟨rules, .blank⟩

def ofSettings (settings : Settings) (evaluate : Evaluator) : Except Settings.Invalid Sheet := do
  let extent ← settings.validate
  return blank ⟨extent, settings.recalculation, settings.unresolved, evaluate⟩

/-- The cells with a text entered, before recalculation. -/
def entered (sheet : Sheet) (p : Position) (text : String) : Cells :=
  let raw := Text.trim text
  sheet.cells.insert p ⟨raw, sheet.rules.display sheet.cells raw⟩

def commit (sheet : Sheet) (p : Position) (text : String) (h : p ∈ sheet.extent) : Sheet where
  rules := sheet.rules
  grid :=
    { cells := sheet.rules.recalculate (sheet.entered p text)
      inside := fun q hq => by
        rw [Rules.keys_recalculate] at hq
        rcases OrderedMap.mem_keys_insert hq with rfl | hq
        · exact h
        · exact sheet.grid.inside q hq }

/-- What a commit has to report. -/
def commitNotices (sheet : Sheet) (p : Position) (text : String) : List Notice :=
  sheet.rules.notices (sheet.entered p text)

/-- Replaces all cells by those of `cells` that lie in the grid, as they are. -/
def restore (sheet : Sheet) (cells : Cells) : Sheet := { sheet with grid := .ofCells cells }

def restoreNotices (sheet : Sheet) (cells : Cells) : List Notice :=
  let count := Grid.outside sheet.extent cells
  if 0 < count then [.dropped count sheet.extent] else []

def cycleAt? (sheet : Sheet) (p : Position) : Option (List Position) :=
  (sheet.rules.graph sheet.cells).cycleFrom? p

end Sheet

/-- Without a medium the sheet lives in memory only. -/
structure SavedSheet (m : Type → Type) where
  settings : Settings
  sheet : Sheet
  medium : Option (Medium m)

inductive CommitError where
  | outside (p : Position)
  | unknownLabel (label : String)
  | notSaved (reason : FileError)
deriving DecidableEq

def CommitError.message : CommitError → String
  | outside p =>
    "Cell at row " ++ toString p.row ++ ", column " ++ toString p.col ++ " is outside the grid"
  | unknownLabel label => "No such cell: " ++ label
  | notSaved reason => "IO error: " ++ reason.message

/-- The sheet that a slot's text or the failure to read it leaves, and what to report. Displays are
taken as they were saved. -/
def Sheet.loaded (sheet : Sheet) (slot : String) :
    Except FileError (Option String) → Sheet × List Notice
  | .ok none => (sheet, [])
  | .ok (some text) =>
    match Slot.decode text with
    | some content =>
      (sheet.restore content.cells,
        content.malformed.map Notice.malformedKey ++ sheet.restoreNotices content.cells)
    | none => (sheet, [.malformed slot])
  | .error e => (sheet, [.unreadable slot e.message])

namespace SavedSheet

variable {m : Type → Type} [Monad m]

def extent (saved : SavedSheet m) : Extent := saved.sheet.extent

def cells (saved : SavedSheet m) : Cells := saved.sheet.cells

/-- Opens the sheet that the settings name. -/
def load (settings : Settings) (evaluate : Evaluator) (medium : Option (Medium m)) :
    m (Except Settings.Invalid (SavedSheet m × List Notice)) := do
  match Sheet.ofSettings settings evaluate with
  | .error e => return .error e
  | .ok sheet =>
    match medium with
    | none => return .ok (⟨settings, sheet, none⟩, [])
    | some medium =>
      let loaded := sheet.loaded settings.slot (← medium.read settings.slot)
      return .ok (⟨settings, loaded.1, some medium⟩, loaded.2)

structure Committed (m : Type → Type) where
  result : Except CommitError Cells
  saved : SavedSheet m
  notices : List Notice

def save (saved : SavedSheet m) : m (Except FileError Unit) :=
  match saved.medium with
  | none => return .ok ()
  | some medium => medium.write saved.settings.slot (Slot.encode saved.cells)

def commit (saved : SavedSheet m) (p : Position) (text : String) : m (Committed m) := do
  if h : p ∈ saved.sheet.extent then
    let after := { saved with sheet := saved.sheet.commit p text h }
    let notices := saved.sheet.commitNotices p text
    match ← after.save with
    | .ok () => return ⟨.ok after.cells, after, notices⟩
    | .error e =>
      return ⟨.error (.notSaved e), after, notices ++ [.notSaved saved.settings.slot e.message]⟩
  else return ⟨.error (.outside p), saved, []⟩

def commitLabel (saved : SavedSheet m) (label text : String) : m (Committed m) :=
  match saved.extent.cell? label with
  | some p => saved.commit p text
  | none => return ⟨.error (.unknownLabel label), saved, []⟩

end SavedSheet

end Worksheet
