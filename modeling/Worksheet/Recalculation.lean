import Worksheet.Cells
import Worksheet.Dependency
import Worksheet.Expression.Evaluation
import Worksheet.Notice
import Worksheet.Settings.Basic

/-! Recalculation of the displays of formula cells. A formula is evaluated with every reference
replaced by the display of its cell; entered texts and the set of stored cells never change. -/
namespace Worksheet

/-- Evaluates an expression that has no references left. -/
abbrev Evaluator := String → Except EvaluationError String

/-- What the displays of a sheet are computed by. -/
structure Rules where
  extent : Extent
  recalculation : Recalculation
  unresolved : Unresolved
  evaluate : Evaluator

namespace Rules

variable (rules : Rules)

/-- What a reference reads. Cells that show nothing read as zero; a label that names no cell of the
grid reads as nothing. -/
def reading? (cells : Cells) (label : String) : Option String :=
  (rules.extent.cell? label).map fun p =>
    let display := cells.display p
    if display = "" then "0" else display

def hasUnresolved (expression : String) : Bool :=
  (Formula.references expression).any fun label => (rules.extent.cell? label).isNone

/-- An unresolved reference in strict mode precedes every failure of the evaluation. -/
def formulaDisplay (cells : Cells) (expression : String) : String :=
  if rules.unresolved = .error ∧ rules.hasUnresolved expression then Cell.Marker.unresolved.text
  else
    match rules.evaluate
        (Formula.substitute (fun label => (rules.reading? cells label).getD "0") expression) with
    | .ok display => display
    | .error _ => Cell.Marker.error.text

/-- The display of an entered text. -/
def display (cells : Cells) (raw : String) : String :=
  match Cell.expression? raw with
  | some expression => rules.formulaDisplay cells expression
  | none => raw

def recompute (cells : Cells) (p : Position) : Cells :=
  match cells.get? p with
  | some cell => cells.setDisplay p (rules.display cells cell.raw)
  | none => cells

/-- One row-major sweep: a formula reads the new displays of earlier formulas and the old displays
of later ones. -/
def sweep (cells : Cells) : Cells := cells.formulaPositions.foldl rules.recompute cells

def graph (cells : Cells) : Graph := .ofFormulas rules.extent cells.formulas

def markCircular (cells : Cells) (p : Position) : Cells :=
  cells.setDisplay p Cell.Marker.circular.text

/-- Every formula after its precedents, and those that a cycle blocks marked at the end. -/
def settle (cells : Cells) : Cells :=
  let graph := rules.graph cells
  graph.blocked.foldl markCircular (graph.ordered.foldl rules.recompute cells)

def blockingCycle? (cells : Cells) : Option (List Position) :=
  let graph := rules.graph cells
  graph.blocked.head?.bind graph.cycleFrom?

def recalculate (cells : Cells) : Cells :=
  match rules.recalculation with
  | .linear => rules.sweep cells
  | .dependency => rules.settle cells

def notices (cells : Cells) : List Notice :=
  match rules.recalculation with
  | .linear => []
  | .dependency => ((rules.blockingCycle? cells).map Notice.circular).toList

@[simp] theorem keys_recompute (cells : Cells) (p : Position) :
    (rules.recompute cells p).keys = cells.keys := by
  unfold recompute
  split
  · exact Cells.keys_setDisplay _ _ _
  · rfl

theorem keys_foldl {f : Cells → Position → Cells} (h : ∀ cells p, (f cells p).keys = cells.keys)
    (positions : List Position) (cells : Cells) : (positions.foldl f cells).keys = cells.keys := by
  induction positions generalizing cells with
  | nil => rfl
  | cons p rest ih => rw [List.foldl_cons, ih, h]

@[simp] theorem keys_sweep (cells : Cells) : (rules.sweep cells).keys = cells.keys :=
  keys_foldl (keys_recompute rules) _ _

@[simp] theorem keys_settle (cells : Cells) : (rules.settle cells).keys = cells.keys := by
  rw [settle, keys_foldl (f := markCircular) fun _ _ => Cells.keys_setDisplay _ _ _,
    keys_foldl (keys_recompute rules)]

@[simp] theorem keys_recalculate (cells : Cells) :
    (rules.recalculate cells).keys = cells.keys := by
  unfold recalculate
  split
  · exact keys_sweep rules cells
  · exact keys_settle rules cells

end Rules

end Worksheet
