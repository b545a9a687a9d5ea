import Worksheet.Proofs.Recalculation.Sweep
import Worksheet.Proofs.Sheet.Commit

/-! Commits in linear mode. One sweep may leave a formula behind what it refers to, but only where
it refers to itself or to a later formula: every other formula is final when the sweep has passed
it. -/
namespace Worksheet

namespace Rules

variable {rules : Rules} {cells : Cells} {p : Position}

/-- The cells that a sweep shows to the formula at `p`: swept in front of it, and from it on as they
were. -/
def midSweep (rules : Rules) (cells : Cells) (p : Position) : Cells :=
  cells.map fun q cell => if q < p then cell.withDisplay ((rules.sweep cells).display q) else cell

theorem display_midSweep (rules : Rules) (cells : Cells) (p q : Position) :
    (rules.midSweep cells p).display q =
      if q < p then (rules.sweep cells).display q else cells.display q := by
  rw [Cells.display, midSweep, OrderedMap.get?_map]
  cases stored : cells.get? q with
  | some cell => split <;> simp [Cell.withDisplay, Cells.display, stored]
  | none =>
    have absent : cells.raw? q = none := by rw [Cells.raw?, stored]; rfl
    have absent' : (rules.sweep cells).raw? q = none := (raw?_sweep ..).trans absent
    rw [display_of_raw?_none absent, display_of_raw?_none absent', ite_self]
    rfl

/-- A formula that refers to no formula but earlier ones is final after the sweep. -/
theorem sweep_consistent
    (earlier : ∀ expression, cells.expression? p = some expression →
      ∀ q ∈ rules.extent.referenced expression, cells.expression? q ≠ none → q < p) :
    rules.Consistent (rules.sweep cells) p := by
  intro expression formula
  rw [expression?_sweep] at formula
  refine display_sweep formula fun q referenced => ?_
  by_cases other : cells.expression? q = none
  · rw [display_sweep_other other, ite_self]
  · rw [if_pos (earlier expression formula q referenced other)]

end Rules

namespace Sheet

variable {sheet : Sheet} {p : Position} {text : String}

theorem cells_commit_linear (mode : sheet.rules.recalculation = .linear)
    (inside : p ∈ sheet.extent) :
    (sheet.commit p text inside).cells = sheet.rules.sweep (sheet.entered p text) := by
  change sheet.rules.recalculate _ = _
  rw [Rules.recalculate, mode]

end Sheet

namespace Rules

variable {σ : Type}

/-- The exact result of a sweep. Nothing changes but displays of formulas, and a formula shows what
it evaluates to when formulas in front of it are read as they are left, and itself and formulas
behind it as they were. So a commit in linear mode, from any state, makes every formula consistent
that refers neither to itself nor to a formula behind it. -/
theorem sweep_exact (rules : Rules) (cells : Cells) :
    let swept := rules.sweep cells
    swept.keys = cells.keys ∧ (∀ q, swept.raw? q = cells.raw? q) ∧
    (∀ q, cells.expression? q = none → swept.display q = cells.display q) ∧
    (∀ p expression, cells.expression? p = some expression →
      let seen := rules.midSweep cells p
      swept.display p = rules.formulaDisplay seen expression ∧
      ∀ q, (cells.expression? q = none → seen.display q = cells.display q) ∧
        (cells.expression? q ≠ none → q < p → seen.display q = swept.display q) ∧
        (cells.expression? q ≠ none → q = p ∨ p < q → seen.display q = cells.display q)) ∧
    ∀ (saved : SavedSheet (StateM σ)) (p : Position) (text : String) (world : σ),
      saved.sheet.rules = rules → rules.recalculation = .linear → p ∈ saved.extent →
      let left := (saved.after p text world).cells
      ∀ q expression, left.expression? q = some expression →
        (∀ r ∈ rules.extent.referenced expression, left.expression? r ≠ none →
          ¬(r = q ∨ q < r)) →
        left.display q = rules.formulaDisplay left expression := by
  intro swept
  refine ⟨keys_sweep rules cells, raw?_sweep rules cells, fun q => display_sweep_other,
    fun p expression formula =>
      ⟨?_, fun q => ⟨fun other => ?_, fun _ less => ?_, fun _ back => ?_⟩⟩,
    fun saved p text world same mode inside q expression formula earlier => ?_⟩
  · exact display_sweep formula fun q _ => display_midSweep rules cells p q
  · rw [display_midSweep, display_sweep_other other, ite_self]
  · rw [display_midSweep, if_pos less]
  · have notLess : ¬q < p := by
      rcases back with rfl | greater
      · exact StrictOrder.irrefl q
      · exact fun less => StrictOrder.irrefl q (StrictOrder.trans less greater)
    rw [display_midSweep, if_neg notLess]
  · subst same
    have committed : (saved.after p text world).cells =
        saved.sheet.rules.sweep (saved.sheet.entered p text) := by
      rw [SavedSheet.after_inside inside]
      exact Sheet.cells_commit_linear mode inside
    rw [committed] at formula earlier ⊢
    refine sweep_consistent (fun e formula' r referenced isFormula => ?_) expression formula
    rw [Cells.expression?, raw?_sweep] at formula
    obtain rfl : expression = e := Option.some.inj (formula.symm.trans formula')
    have isFormula :
        (saved.sheet.rules.sweep (saved.sheet.entered p text)).expression? r ≠ none := by
      rwa [Cells.expression?, raw?_sweep]
    obtain ⟨other, notGreater⟩ := not_or.mp (earlier r referenced isFormula)
    by_contra notLess
    exact other (StrictOrder.connected notLess notGreater)

/-- A1 refers to B1 behind it, and B1 to A1, to itself and to the text in C1. The commit to A2 makes
the formula in B2 consistent, which refers to A2 and to B1. -/
theorem sweep_exact_cycle :
    let rules : Rules := ⟨⟨10, 10, by decide, by decide, by decide⟩, .linear, .zero, .ok⟩
    let cells : Cells := .ofList [(⟨0, 0⟩, ⟨"=B1", "old"⟩), (⟨0, 1⟩, ⟨"=A1+B1+C1", "7"⟩),
      (⟨0, 2⟩, ⟨"text", "shown"⟩), (⟨1, 1⟩, ⟨"=A2*B1", "stale"⟩)]
    let saved : SavedSheet (StateM Unit) := ⟨.default, ⟨rules, .ofCells cells⟩, some .readOnly⟩
    let left := (saved.after ⟨1, 0⟩ "3" ()).cells
    saved.sheet.rules = rules ∧ rules.recalculation = .linear ∧ ⟨1, 0⟩ ∈ saved.extent ∧
    (rules.sweep cells).display ⟨0, 0⟩ = "7" ∧ (rules.sweep cells).display ⟨0, 1⟩ = "7+7+shown" ∧
    left.display ⟨1, 1⟩ = rules.formulaDisplay left "A2*B1" ∧
    left.display ⟨0, 0⟩ ≠ rules.formulaDisplay left "B1" := by
  intro rules cells saved left
  obtain ⟨_, _, _, formulas, commits⟩ := sweep_exact (σ := Unit) rules cells
  have first := (formulas ⟨0, 0⟩ "B1" (by decide +kernel)).1
  have second := (formulas ⟨0, 1⟩ "A1+B1+C1" (by decide +kernel)).1
  refine ⟨rfl, rfl, by decide, ?_, ?_, ?_, by decide +kernel⟩
  · exact first.trans (by decide +kernel)
  · exact second.trans (by decide +kernel)
  · exact commits saved ⟨1, 0⟩ "3" () rfl rfl (by decide) ⟨1, 1⟩ "A2*B1" (by decide +kernel)
      (by decide +kernel)

end Rules

end Worksheet
