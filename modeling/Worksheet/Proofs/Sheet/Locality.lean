import Worksheet.Proofs.Sheet.History

/-! The reach of a commit. In dependency mode it changes the edited cell and the formulas from which
that cell is reached, and no other cell, whatever cycles come and go elsewhere in the sheet. -/
namespace Worksheet

namespace Sheet

variable {sheet : Sheet} {p q : Position} {text : String}

theorem raw?_commit_other (inside : p ∈ sheet.extent) (other : p ≠ q) :
    (sheet.commit p text inside).cells.raw? q = sheet.cells.raw? q := by
  rw [raw?_commit, if_neg other]

theorem display_commit_other (mode : sheet.rules.recalculation = .dependency)
    (inside : p ∈ sheet.extent) (other : p ≠ q) (literal : sheet.cells.expression? q = none) :
    (sheet.commit p text inside).cells.display q = sheet.cells.display q := by
  have literal' : (sheet.entered p text).expression? q = none := by
    rwa [Cells.expression?, entered, Cells.raw?_insert, if_neg other]
  rw [cells_commit mode, Rules.display_settle_other literal', entered, Cells.display_insert,
    if_neg other]

theorem get?_commit (mode : sheet.rules.recalculation = .dependency)
    (settled : sheet.rules.Settled sheet.cells) (inside : p ∈ sheet.extent)
    (apart : ¬(sheet.rules.graph sheet.cells).Reaches q p) :
    (sheet.commit p text inside).cells.get? q = sheet.cells.get? q := by
  -- Where `p` is not reached from, no reference leads to where it is: the commit does not change
  -- this part of the graph, and both sides of the commit are settled on it.
  let part (r : Position) : Prop := ¬(sheet.rules.graph sheet.cells).Reaches r p
  have other {r : Position} (h : part r) : p ≠ r := by
    rintro rfl
    exact h .refl
  have closed (r s : Position) (h : part r)
      (refers : s ∈ (sheet.rules.graph sheet.cells).precedentsOf r) : part s :=
    fun reached => h (.head refers reached)
  refine Cells.get?_congr (raw?_commit_other inside (other apart)) ?_
  exact (settled.agree (settled_commit mode inside) closed
    (fun r h => (raw?_commit_other inside (other h)).symm)
    (fun r h literal => (display_commit_other mode inside (other h) literal).symm) q apart).symm

/-- A commit does not change from where the edited cell is reached. -/
theorem reaches_commit (inside : p ∈ sheet.extent) :
    (sheet.rules.graph (sheet.commit p text inside).cells).Reaches q p ↔
      (sheet.rules.graph sheet.cells).Reaches q p := by
  have same (r : Position) (other : r ≠ p) :
      (sheet.rules.graph (sheet.commit p text inside).cells).precedentsOf r =
        (sheet.rules.graph sheet.cells).precedentsOf r := by
    have raw : (sheet.commit p text inside).cells.raw? r = sheet.cells.raw? r :=
      raw?_commit_other inside (Ne.symm other)
    rw [Graph.precedentsOf, Graph.precedentsOf, Rules.precedents_graph, Rules.precedents_graph,
      Cells.expression?, Cells.expression?, raw]
  exact ⟨Graph.reaches_congr same, Graph.reaches_congr fun r other => (same r other).symm⟩

end Sheet

namespace SavedSheet

variable {σ : Type} {settings : Settings} {evaluate : Evaluator}
  {medium : Option (Medium (StateM σ))} {saved : SavedSheet (StateM σ)} {extent : Extent}

/-- The last thing that happened to a document was a commit inside its grid, or it is empty. -/
inductive Recalculated (settings : Settings) (evaluate : Evaluator)
    (medium : Option (Medium (StateM σ))) : SavedSheet (StateM σ) → Prop where
  | empty {saved : SavedSheet (StateM σ)} : Reached settings evaluate medium saved →
      saved.cells = .empty → Recalculated settings evaluate medium saved
  | committed {saved : SavedSheet (StateM σ)} (p : Position) (text : String) (world : σ) :
      Reached settings evaluate medium saved → p ∈ saved.extent →
      Recalculated settings evaluate medium (saved.after p text world)

namespace Recalculated

theorem reached (h : saved.Recalculated settings evaluate medium) :
    saved.Reached settings evaluate medium := by
  cases h with
  | empty reached _ => exact reached
  | committed p text world reached _ => exact reached.committed p text world

theorem settled (h : saved.Recalculated settings evaluate medium)
    (mode : saved.sheet.rules.recalculation = .dependency) :
    saved.sheet.rules.Settled saved.cells := by
  cases h with
  | empty _ none =>
    rw [none]
    exact (Rules.empty_canonical _).toSettled
  | @committed saved p text world _ inside =>
    rw [rules_after] at mode ⊢
    rw [after_inside inside]
    exact Sheet.settled_commit mode inside

end Recalculated

/-- A commit stores the text and leaves every cell alone from which the edited cell is not reached
by references: it is stored if it was, with the same text and the same display. It is the same
before and after the commit from where the edited cell is reached. -/
theorem after_local (mode : settings.recalculation = .dependency)
    (h : saved.Recalculated settings evaluate medium) {p : Position} (inside : p ∈ saved.extent)
    (text : String) (world : σ) :
    let rules := saved.sheet.rules
    let cells := (saved.after p text world).cells
    cells.raw? p = some (Text.trim text) ∧
    (∀ q, (rules.graph cells).Reaches q p ↔ (rules.graph saved.cells).Reaches q p) ∧
    ∀ q, ¬(rules.graph saved.cells).Reaches q p → cells.get? q = saved.cells.get? q := by
  intro rules cells
  have mode : rules.recalculation = .dependency := by
    obtain ⟨extent, valid⟩ := h.reached.valid
    change saved.sheet.rules.recalculation = _
    rw [h.reached.rules valid]
    exact mode
  have committed : cells = (saved.sheet.commit p text inside).cells :=
    congrArg SavedSheet.cells (after_inside inside world)
  rw [committed]
  refine ⟨?_, fun q => Sheet.reaches_commit inside, fun q apart => ?_⟩
  · rw [Sheet.raw?_commit inside, if_pos rfl]
  · exact Sheet.get?_commit mode (h.settled mode) inside apart

/-- The commit to B1 breaks the cycle of A1 and B1. The formula in C1 keeps its own. -/
theorem after_local_broken_cycle :
    let settings : Settings := { Settings.default with recalculation := .dependency }
    let extent : Extent := ⟨10, 10, by decide, by decide, by decide⟩
    let opened : SavedSheet (StateM Unit) := ⟨settings, .blank (rulesOf settings .ok extent), none⟩
    let before := (opened.after ⟨0, 2⟩ "=C1+D1" ()).after ⟨0, 0⟩ "=B1" ()
    let circular := before.after ⟨0, 1⟩ "=A1" ()
    let broken := circular.after ⟨0, 1⟩ "=D1" ()
    settings.recalculation = .dependency ∧ circular.Recalculated settings .ok none ∧
    ⟨0, 1⟩ ∈ circular.extent ∧ circular.cells.display ⟨0, 0⟩ = Cell.Marker.circular.text ∧
    broken.cells.display ⟨0, 0⟩ = "0" ∧
    broken.cells.get? ⟨0, 2⟩ = some ⟨"=C1+D1", Cell.Marker.circular.text⟩ := by
  intro settings extent opened before circular broken
  have valid : settings.validate = .ok extent := by decide +kernel
  have loaded : (load (m := StateM Unit) settings .ok none).run () = (.ok (opened, []), ()) := by
    simp only [load, ofSettings_valid valid]
    rfl
  have reached : before.Reached settings .ok none :=
    ((Reached.opened loaded).committed ..).committed ..
  have recalculated : circular.Recalculated settings .ok none :=
    .committed ⟨0, 1⟩ "=A1" () reached (by decide +kernel)
  have inside : ⟨0, 1⟩ ∈ circular.extent := by decide +kernel
  have apart : ¬(circular.sheet.rules.graph circular.cells).Reaches ⟨0, 2⟩ ⟨0, 1⟩ := by
    let part : List Position := [⟨0, 2⟩, ⟨0, 3⟩]
    have closed : ∀ p ∈ part, ∀ q ∈ (circular.sheet.rules.graph circular.cells).precedentsOf p,
        q ∈ part := by decide +kernel
    have stays {q : Position}
        (h : (circular.sheet.rules.graph circular.cells).Reaches ⟨0, 2⟩ q) : q ∈ part := by
      induction h with
      | refl => decide
      | tail _ refers ih => exact closed _ ih _ refers
    intro h
    exact absurd (stays h) (by decide)
  obtain ⟨_, _, same⟩ := after_local rfl recalculated inside "=D1" ()
  refine ⟨rfl, recalculated, inside, by decide +kernel, by decide +kernel, ?_⟩
  rw [same _ apart]
  decide +kernel

end SavedSheet

end Worksheet
