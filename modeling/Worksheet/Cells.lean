import Worksheet.Position

/-! A cell is the text a user entered and the display last computed for it. A leading equals sign
makes the text a formula. A position that was never written has no cell and shows nothing. A grid
holds cells at positions of its extent and at no others. -/
namespace Worksheet

structure Cell where
  raw : String
  display : String
deriving DecidableEq, Inhabited

namespace Cell

inductive Kind where
  | empty
  | literal
  | formula
deriving DecidableEq

/-- What formula cells show instead of a value. -/
inductive Marker where
  | error
  | circular
  | unresolved
deriving DecidableEq

def Marker.text : Marker → String
  | error => "ERROR"
  | circular => "CIRCULAR_REF"
  | unresolved => "REF_ERROR"

def empty : Cell := ⟨"", ""⟩

def literal (raw : String) : Cell := ⟨raw, raw⟩

/-- The expression behind the equals sign of an entered text. -/
def expression? (raw : String) : Option String :=
  match raw.toList with
  | '=' :: expression => some (.ofList expression)
  | _ => none

def formula? (cell : Cell) : Option String := expression? cell.raw

def isFormula (cell : Cell) : Bool := cell.formula?.isSome

def kind (cell : Cell) : Kind :=
  if cell.raw = "" then .empty else if cell.isFormula then .formula else .literal

def withDisplay (cell : Cell) (display : String) : Cell := { cell with display }

end Cell

abbrev Cells := OrderedMap Position Cell

namespace Cells

def display (cells : Cells) (p : Position) : String := (cells.get? p).elim "" Cell.display

/-- The cell at a position, the empty one where none is stored. -/
def cell (cells : Cells) (p : Position) : Cell := (cells.get? p).getD .empty

def formulaPositions (cells : Cells) : List Position :=
  (cells.entries.filter fun e => e.2.isFormula).map Prod.fst

/-- The formula cells with their expressions, in row-major order. -/
def formulas (cells : Cells) : List (Position × String) :=
  cells.entries.filterMap fun e => e.2.formula?.map (e.1, ·)

def setDisplay (cells : Cells) (p : Position) (display : String) : Cells :=
  cells.modify p (·.withDisplay display)

@[simp] theorem keys_setDisplay (cells : Cells) (p : Position) (display : String) :
    (cells.setDisplay p display).keys = cells.keys := OrderedMap.keys_modify _ _ _

end Cells

structure Grid (extent : Extent) where
  cells : Cells
  inside : ∀ p ∈ cells.keys, p ∈ extent

namespace Grid

variable {extent : Extent}

def blank : Grid extent := ⟨.empty, by simp [OrderedMap.keys, OrderedMap.empty]⟩

def put (grid : Grid extent) (p : Position) (cell : Cell) (h : p ∈ extent) : Grid extent where
  cells := grid.cells.insert p cell
  inside q hq := by
    rcases OrderedMap.mem_keys_insert hq with rfl | hq
    · exact h
    · exact grid.inside q hq

def put? (grid : Grid extent) (p : Position) (cell : Cell) : Option (Grid extent) :=
  if h : p ∈ extent then some (grid.put p cell h) else none

def cell? (grid : Grid extent) (p : Position) : Option Cell :=
  if p ∈ extent then some (grid.cells.cell p) else none

/-- The cells that lie inside the grid. -/
def ofCells (cells : Cells) : Grid extent where
  cells := cells.filter fun p _ => p ∈ extent
  inside p hp := by
    obtain ⟨_, _, kept⟩ := OrderedMap.mem_keys_filter hp
    simpa using kept

/-- How many of the cells lie outside the grid. -/
def outside (extent : Extent) (cells : Cells) : Nat :=
  let kept : Grid extent := ofCells cells
  cells.size - kept.cells.size

end Grid

end Worksheet
