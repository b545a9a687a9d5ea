import Worksheet.Proofs.Sheet.Edit
import Worksheet.Proofs.Sheet.History

/-! Strict mode against zero mode. The mode of unresolved references is read only where a formula
has one, so that settled sheets of both modes agree wherever no unresolved reference is reached. Two
documents with one history of edits, one in each mode, hold the same texts and the same cycles, and
no display differs but where an unresolved reference is read. -/
namespace Worksheet.Rules

variable {rules : Rules} {cells cells' : Cells} {p q : Position} {expression : String}

def withUnresolved (rules : Rules) (mode : Unresolved) : Rules := { rules with unresolved := mode }

/-- Some reference of the expression names no cell of the grid. -/
def Unresolves (rules : Rules) (expression : String) : Prop :=
  ∃ label ∈ Formula.references expression, rules.extent.cell? label = none

theorem hasUnresolved_iff : rules.hasUnresolved expression ↔ rules.Unresolves expression := by
  simp [hasUnresolved, Unresolves]

/-- Everything that `p` shows comes from expressions without unresolved references. -/
def Resolved (rules : Rules) (cells : Cells) (p : Position) : Prop :=
  ∀ q, (rules.graph cells).Reaches p q → ∀ expression, cells.expression? q = some expression →
    ¬rules.Unresolves expression

theorem Resolved.closed (h : rules.Resolved cells p)
    (refers : q ∈ (rules.graph cells).precedentsOf p) : rules.Resolved cells q :=
  fun r reached => h r (.head refers reached)

theorem formulaDisplay_withUnresolved (resolved : ¬rules.Unresolves expression)
    (mode : Unresolved) (cells : Cells) :
    (rules.withUnresolved mode).formulaDisplay cells expression =
      rules.formulaDisplay cells expression := by
  have none : ¬rules.hasUnresolved expression := mt hasUnresolved_iff.mp resolved
  rw [formulaDisplay, formulaDisplay, if_neg fun h => none h.2, if_neg fun h => none h.2]
  rfl

theorem formulaDisplay_strict (unresolved : rules.Unresolves expression) (cells : Cells) :
    (rules.withUnresolved .error).formulaDisplay cells expression =
      Cell.Marker.unresolved.text :=
  if_pos ⟨rfl, hasUnresolved_iff.mpr unresolved⟩

theorem Consistent.withUnresolved {mode : Unresolved}
    (h : (rules.withUnresolved mode).Consistent cells p)
    (resolved : ∀ expression, cells.expression? p = some expression →
      ¬rules.Unresolves expression) : rules.Consistent cells p := by
  intro expression formula
  rw [h expression formula, formulaDisplay_withUnresolved (resolved expression formula)]

theorem Settled.display_unresolved (h : (rules.withUnresolved .error).Settled cells)
    (formula : cells.expression? p = some expression) (unresolved : rules.Unresolves expression)
    (free : ¬(rules.graph cells).BehindCycle p) :
    cells.display p = Cell.Marker.unresolved.text := by
  have ordered : p ∈ (rules.graph cells).ordered :=
    (mem_ordered_or_blocked.mpr ⟨expression, formula⟩).resolve_right
      (mt Graph.mem_blocked_iff_behindCycle.mp free)
  rw [h.ordered p ordered expression formula, formulaDisplay_strict unresolved]

theorem Settled.display_circular (h : rules.Settled cells)
    (behind : (rules.graph cells).BehindCycle p) :
    cells.display p = Cell.Marker.circular.text :=
  h.blocked p (Graph.mem_blocked_iff_behindCycle.mpr behind)

/-- Canonical cells of two modes show the same wherever nothing unresolved is reached, whether a
cycle is reached or not. -/
theorem Canonical.display_resolved {mode : Unresolved} (h : rules.Canonical cells)
    (h' : (rules.withUnresolved mode).Canonical cells')
    (raws : ∀ p, cells.raw? p = cells'.raw? p) (resolved : rules.Resolved cells p) :
    cells.display p = cells'.display p := by
  have graph : rules.graph cells = (rules.withUnresolved mode).graph cells' := graph_congr raws
  have others (q : Position) (other : cells.expression? q = none) :
      cells.display q = cells'.display q := by
    have other' : cells'.expression? q = none := by rwa [Cells.expression?, ← raws]
    rw [h.display_other other, h'.display_other other', raws]
  cases formula : cells.expression? p with
  | none => exact others p formula
  | some expression =>
    rcases mem_ordered_or_blocked.mpr ⟨expression, formula⟩ with ordered | blocked
    · have closed (q r : Position) (resolved : rules.Resolved cells q)
          (refers : r ∈ (rules.graph cells).precedentsOf q) : rules.Resolved cells r :=
        resolved.closed refers
      refine displays_agree (rules.graph cells).schedule_ordered closed (fun q _ => raws q)
        (fun q member _ => h.ordered q member) (fun q member resolved => ?_) (fun q _ => others q)
        p ordered resolved
      -- What is resolved means the same in both modes.
      refine (h'.ordered q (graph ▸ member)).withUnresolved fun expression formula => ?_
      rw [Cells.expression?, ← raws] at formula
      exact resolved q .refl expression formula
    · rw [h.blocked p blocked, h'.blocked p (graph ▸ blocked)]

end Worksheet.Rules

namespace Worksheet.SavedSheet

variable {σ σ' : Type} {settings : Settings} {evaluate : Evaluator} {extent : Extent}

structure Fresh (settings : Settings) (evaluate : Evaluator) (saved : SavedSheet (StateM σ)) :
    Prop where
  opened : ∃ (medium : Option (Medium (StateM σ))) (notices : List Notice) (world world' : σ),
    (load settings evaluate medium).run world = (.ok (saved, notices), world')
  empty : saved.cells = .empty

namespace Fresh

variable {saved : SavedSheet (StateM σ)}

theorem rules (h : saved.Fresh settings evaluate) (valid : settings.validate = .ok extent) :
    saved.sheet.rules = rulesOf settings evaluate extent := by
  obtain ⟨_, _, _, _, opened⟩ := h.opened
  exact (load_valid valid opened).1

theorem valid (h : saved.Fresh settings evaluate) :
    ∃ extent, settings.validate = .ok extent := by
  obtain ⟨_, _, _, _, opened⟩ := h.opened
  exact (Reached.opened opened).valid

theorem canonical (h : saved.Fresh settings evaluate) :
    saved.sheet.rules.Canonical saved.sheet.cells := by
  rw [show saved.sheet.cells = .empty from h.empty]
  exact Rules.empty_canonical _

end Fresh

/-- Strict mode shows a difference only where an unresolved reference is read. After the same edits
a formula behind a cycle shows the same marker in both modes; any other formula with an unresolved
reference of its own shows its marker in strict mode; and every cell that reaches no unresolved
reference shows the same in both modes. -/
theorem strict_differs_locally {lenient : SavedSheet (StateM σ)} {strict : SavedSheet (StateM σ')}
    (mode : settings.recalculation = .dependency)
    (fresh : lenient.Fresh { settings with unresolved := .zero } evaluate)
    (fresh' : strict.Fresh { settings with unresolved := .error } evaluate)
    (edits : List Edit) (world : σ) (world' : σ') :
    let rules := lenient.sheet.rules
    let cells := ((lenient.editAll edits).run world).1.cells
    let cells' := ((strict.editAll edits).run world').1.cells
    let graph := rules.graph cells
    strict.sheet.rules.graph cells' = graph ∧
    (∀ p, cells.raw? p = cells'.raw? p) ∧
    (∀ p, graph.BehindCycle p → cells.display p = Cell.Marker.circular.text ∧
      cells'.display p = Cell.Marker.circular.text) ∧
    (∀ p expression, cells.expression? p = some expression → ¬graph.BehindCycle p →
      rules.Unresolves expression → cells'.display p = Cell.Marker.unresolved.text) ∧
    ∀ p, rules.Resolved cells p → cells.display p = cells'.display p := by
  intro rules cells cells' graph
  obtain ⟨extent, valid⟩ := fresh.valid
  have sameRules : rules = rulesOf { settings with unresolved := .zero } evaluate extent :=
    fresh.rules valid
  have strictRules : strict.sheet.rules = rules.withUnresolved .error := by
    rw [sameRules]
    exact fresh'.rules valid
  have dependency : rules.recalculation = .dependency := by
    rw [sameRules]
    exact mode
  have reached : cells = (lenient.sheet.editedAll edits).cells := cells_editAll ..
  have reached' : cells' = (strict.sheet.editedAll edits).cells := cells_editAll ..
  have canonical : rules.Canonical cells := by
    rw [reached]
    exact Sheet.canonical_editedAll dependency fresh.canonical edits
  have canonical' : (rules.withUnresolved .error).Canonical cells' := by
    rw [reached', ← strictRules]
    refine Sheet.canonical_editedAll ?_ fresh'.canonical edits
    rw [strictRules]
    exact dependency
  have raws (p : Position) : cells.raw? p = cells'.raw? p := by
    have extents : lenient.sheet.extent = strict.sheet.extent :=
      (congrArg Rules.extent strictRules).symm
    have start : lenient.sheet.cells = strict.sheet.cells := fresh.empty.trans fresh'.empty.symm
    rw [reached, reached']
    exact Sheet.raws_editedAll extents (fun q => congrArg (Cells.raw? · q) start) edits p
  have graphs : (rules.withUnresolved .error).graph cells' = graph :=
    (Rules.graph_congr raws).symm
  refine ⟨strictRules ▸ graphs, raws, fun p behind => ?_,
    fun p expression formula free unresolved => ?_,
    fun p => canonical.display_resolved canonical' raws⟩
  · exact ⟨canonical.display_circular behind, canonical'.display_circular (graphs ▸ behind)⟩
  · rw [Cells.expression?, raws] at formula
    exact canonical'.display_unresolved formula unresolved (graphs ▸ free)

/-- A1 refers to a row that the grid does not have. D1 refers to A1, C1 to that row and to itself,
and E1 to nothing but B1. -/
theorem strict_differs_locally_downstream :
    let settings : Settings := { Settings.default with recalculation := .dependency }
    let extent : Extent := ⟨10, 10, by decide, by decide, by decide⟩
    let zero : Settings := { settings with unresolved := .zero }
    let error : Settings := { settings with unresolved := .error }
    let lenient : SavedSheet (StateM Unit) := ⟨zero, .blank (rulesOf zero .ok extent), none⟩
    let strict : SavedSheet (StateM Unit) := ⟨error, .blank (rulesOf error .ok extent), none⟩
    let edits : List Edit := [.label "A1" "=B1+A99", .label "B1" "2", .label "C1" "=C1+A99",
      .label "D1" "=A1", .label "E1" "=B1*3"]
    let cells := ((lenient.editAll edits).run ()).1.cells
    let cells' := ((strict.editAll edits).run ()).1.cells
    settings.recalculation = .dependency ∧ lenient.Fresh zero .ok ∧ strict.Fresh error .ok ∧
    cells.display ⟨0, 0⟩ = "2+0" ∧ cells'.display ⟨0, 0⟩ = Cell.Marker.unresolved.text ∧
    cells.display ⟨0, 2⟩ = Cell.Marker.circular.text ∧
    cells'.display ⟨0, 2⟩ = Cell.Marker.circular.text ∧
    cells.display ⟨0, 3⟩ = "2+0" ∧ cells'.display ⟨0, 3⟩ = Cell.Marker.unresolved.text ∧
    cells.display ⟨0, 4⟩ = cells'.display ⟨0, 4⟩ := by
  intro settings extent zero error lenient strict edits cells cells'
  have opened (settings : Settings) (valid : settings.validate = .ok extent) :
      Fresh (σ := Unit) settings .ok ⟨settings, .blank (rulesOf settings .ok extent), none⟩ := by
    refine ⟨⟨none, [], (), (), ?_⟩, rfl⟩
    simp only [load, ofSettings_valid valid]
    rfl
  have fresh : lenient.Fresh zero .ok := opened zero (by decide +kernel)
  have fresh' : strict.Fresh error .ok := opened error (by decide +kernel)
  have mode : settings.recalculation = .dependency := rfl
  obtain ⟨_, _, circular, unresolved, resolved⟩ :=
    strict_differs_locally mode fresh fresh' edits () ()
  let graph := lenient.sheet.rules.graph cells
  obtain ⟨shown, downstream, downstream', blocked, free, expression, closed, expressions⟩ :
      cells.display ⟨0, 0⟩ = "2+0" ∧ cells.display ⟨0, 3⟩ = "2+0" ∧
      cells'.display ⟨0, 3⟩ = Cell.Marker.unresolved.text ∧ ⟨0, 2⟩ ∈ graph.blocked ∧
      ⟨0, 0⟩ ∉ graph.blocked ∧ cells.expression? ⟨0, 0⟩ = some "B1+A99" ∧
      (∀ p ∈ [⟨0, 4⟩, ⟨0, 1⟩], ∀ q ∈ graph.precedentsOf p, q ∈ [⟨0, 4⟩, ⟨0, 1⟩]) ∧
      ∀ q ∈ [⟨0, 4⟩, ⟨0, 1⟩], ∀ expression ∈ cells.expression? q,
        ¬lenient.sheet.rules.hasUnresolved expression := by decide +kernel
  have marked := circular ⟨0, 2⟩ (Graph.mem_blocked_iff_behindCycle.mp blocked)
  have own : cells'.display ⟨0, 0⟩ = Cell.Marker.unresolved.text :=
    unresolved ⟨0, 0⟩ "B1+A99" expression (mt Graph.mem_blocked_iff_behindCycle.mpr free)
      ⟨"A99", by decide +kernel, by decide +kernel⟩
  refine ⟨mode, fresh, fresh', shown, own, marked.1, marked.2, downstream, downstream',
    resolved ⟨0, 4⟩ fun q reached expression formula => ?_⟩
  have member : q ∈ [⟨0, 4⟩, ⟨0, 1⟩] := reached.mem closed (by decide)
  exact mt Rules.hasUnresolved_iff.mpr (expressions q member expression formula)

end Worksheet.SavedSheet
