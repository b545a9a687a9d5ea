import Worksheet.Proofs.Recalculation.Sweep
import Worksheet.Proofs.Sheet.Edit
import Worksheet.Table

/-! Erased cells. A cell whose text and display are empty cannot be told from one that is not
stored: no formula reads a difference, and recalculation in either mode keeps to that. Two documents
that differ only in what was erased stay that way through any edits, and nothing that a document
shows tells them apart. -/
namespace Worksheet

namespace Cells

variable {cells cells' : Cells} {p q : Position}

/-- The same cells, but for some that hold nothing and show nothing and are stored on one side. -/
def SameButErased (cells cells' : Cells) : Prop :=
  ∀ p, cells.get? p = cells'.get? p ∨
    cells.get? p = some .empty ∧ cells'.get? p = none ∨
    cells.get? p = none ∧ cells'.get? p = some .empty

/-- Erased cells are exactly what reading a cell cannot see. -/
theorem sameButErased_iff : cells.SameButErased cells' ↔ ∀ p, cells.cell p = cells'.cell p := by
  refine forall_congr' fun p => ?_
  rw [cell, cell]
  cases cells.get? p <;> cases cells'.get? p <;> simp [eq_comm]

theorem display_cell (cells : Cells) (p : Position) : (cells.cell p).display = cells.display p := by
  rw [cell, display]
  cases cells.get? p <;> rfl

theorem expression?_cell (cells : Cells) (p : Position) :
    (cells.cell p).formula? = cells.expression? p := by
  rw [cell, expression?, raw?]
  cases cells.get? p <;> rfl

theorem cell_insert (cells : Cells) (p q : Position) (cell : Cell) :
    Cells.cell (cells.insert p cell) q = if p = q then cell else cells.cell q := by
  rw [Cells.cell, OrderedMap.get?_insert, Cells.cell]
  split <;> rfl

theorem cell_setDisplay {expression : String} (formula : cells.expression? p = some expression)
    (display : String) (q : Position) : (cells.setDisplay p display).cell q =
      if q = p then (cells.cell p).withDisplay display else cells.cell q := by
  obtain ⟨raw, stored, _⟩ := Option.bind_eq_some_iff.mp formula
  obtain ⟨cell, found, _⟩ := Option.map_eq_some_iff.mp stored
  rw [Cells.cell, setDisplay, OrderedMap.get?_modify, Cells.cell, Cells.cell]
  split
  next same => rw [same, found]; rfl
  next => rfl

namespace SameButErased

theorem display (h : cells.SameButErased cells') (p : Position) :
    cells.display p = cells'.display p := by
  rw [← display_cell, ← display_cell, sameButErased_iff.mp h]

theorem expression? (h : cells.SameButErased cells') (p : Position) :
    cells.expression? p = cells'.expression? p := by
  rw [← expression?_cell, ← expression?_cell, sameButErased_iff.mp h]

theorem formulas (h : cells.SameButErased cells') : cells.formulas = cells'.formulas :=
  OrderedMap.entries_unique cells.formulas_ascending cells'.formulas_ascending fun f => by
    rw [← Prod.mk.eta (p := f), mem_formulas, mem_formulas, h.expression?]

theorem formulaPositions (h : cells.SameButErased cells') :
    cells.formulaPositions = cells'.formulaPositions := by
  have positions (cells : Cells) : cells.formulaPositions = cells.formulas.map Prod.fst := by
    rw [Cells.formulaPositions, Cells.formulas]
    induction cells.entries with
    | nil => rfl
    | cons e rest ih =>
      cases formula : e.2.formula? with
      | none => simpa [Cell.isFormula, formula] using ih
      | some expression => simpa [Cell.isFormula, formula] using ih
  rw [positions, positions, h.formulas]

theorem insert (h : cells.SameButErased cells') (p : Position) (cell : Cell) :
    Cells.SameButErased (cells.insert p cell) (cells'.insert p cell) := by
  refine sameButErased_iff.mpr fun q => ?_
  rw [cell_insert, cell_insert, sameButErased_iff.mp h]

theorem setDisplay {expression : String} (h : cells.SameButErased cells')
    (formula : cells.expression? p = some expression) (display : String) :
    (cells.setDisplay p display).SameButErased (cells'.setDisplay p display) := by
  refine sameButErased_iff.mpr fun q => ?_
  rw [cell_setDisplay formula, cell_setDisplay (h.expression? p ▸ formula), sameButErased_iff.mp h,
    sameButErased_iff.mp h]

end SameButErased

end Cells

namespace Rules

variable {rules : Rules} {cells cells' : Cells} {p : Position}

theorem graph_sameButErased (h : cells.SameButErased cells') :
    rules.graph cells = rules.graph cells' := by
  rw [graph, graph, h.formulas]

theorem display_sameButErased (h : cells.SameButErased cells') (raw : String) :
    rules.display cells raw = rules.display cells' raw := by
  unfold display
  split
  · exact formulaDisplay_local fun q _ => h.display q
  · rfl

theorem recompute_sameButErased {expression : String} (h : cells.SameButErased cells')
    (formula : cells.expression? p = some expression) :
    (rules.recompute cells p).SameButErased (rules.recompute cells' p) := by
  have recomputes {cells : Cells} (formula : cells.expression? p = some expression) :
      rules.recompute cells p = cells.setDisplay p (rules.formulaDisplay cells expression) := by
    obtain ⟨raw, stored, found⟩ := Option.bind_eq_some_iff.mp formula
    obtain ⟨cell, read, rfl⟩ := Option.map_eq_some_iff.mp stored
    simp only [recompute, read, display, found]
  rw [recomputes formula, recomputes (h.expression? p ▸ formula),
    formulaDisplay_local fun q _ => h.display q]
  exact h.setDisplay formula _

/-- Steps that change displays of formulas alike lead to sheets that are alike. -/
theorem foldl_sameButErased {f : Cells → Position → Cells}
    (raws : ∀ cells p q, (f cells p).raw? q = cells.raw? q)
    (step : ∀ cells cells' p expression, cells.SameButErased cells' →
      cells.expression? p = some expression → (f cells p).SameButErased (f cells' p))
    {positions : List Position} (h : cells.SameButErased cells')
    (formulas : ∀ p ∈ positions, ∃ expression, cells.expression? p = some expression) :
    (positions.foldl f cells).SameButErased (positions.foldl f cells') := by
  induction positions generalizing cells cells' with
  | nil => exact h
  | cons p rest ih =>
    obtain ⟨expression, formula⟩ := formulas p List.mem_cons_self
    refine ih (step cells cells' p expression h formula) fun q member => ?_
    rw [Cells.expression?, raws]
    exact formulas q (List.mem_cons_of_mem _ member)

theorem sweep_sameButErased (h : cells.SameButErased cells') :
    (rules.sweep cells).SameButErased (rules.sweep cells') := by
  rw [sweep, sweep, ← h.formulaPositions]
  exact foldl_sameButErased (raw?_recompute rules)
    (fun _ _ _ _ => recompute_sameButErased) h fun p => Cells.mem_formulaPositions.mp

theorem settle_sameButErased (h : cells.SameButErased cells') :
    (rules.settle cells).SameButErased (rules.settle cells') := by
  rw [settle, settle, ← graph_sameButErased h]
  refine foldl_sameButErased raw?_markCircular (fun _ _ _ _ h formula => h.setDisplay formula _) ?_
    fun p blocked => ?_
  · exact foldl_sameButErased (raw?_recompute rules) (fun _ _ _ _ => recompute_sameButErased) h
      fun p ordered => mem_ordered_or_blocked.mp (.inl ordered)
  · rw [Cells.expression?, raw?_foldl (raw?_recompute rules)]
    exact mem_ordered_or_blocked.mp (.inr blocked)

theorem recalculate_sameButErased (h : cells.SameButErased cells') :
    (rules.recalculate cells).SameButErased (rules.recalculate cells') := by
  unfold recalculate
  split
  · exact sweep_sameButErased h
  · exact settle_sameButErased h

end Rules

theorem Table.render_sameButErased {cells cells' : Cells} (extent : Extent)
    (h : cells.SameButErased cells') : render extent cells = render extent cells' := by
  have shown : Table.display cells = Table.display cells' :=
    funext fun row => funext fun col => congrArg String.toList (h.display ⟨row, col⟩)
  have sized : widths extent cells = widths extent cells' := by
    simp only [widths, width, shown]
  have rows : row extent cells = row extent cells' := by
    funext widths index
    rw [row, row, shown]
  rw [render, render, header, header, sized, rows]

namespace Sheet

variable {first second : Sheet} {p : Position} {text : String}

/-- The same rules, and the same cells but for erased ones. -/
structure SameButErased (first second : Sheet) : Prop where
  rules : first.rules = second.rules
  cells : first.cells.SameButErased second.cells

namespace SameButErased

theorem extent (h : first.SameButErased second) : first.extent = second.extent :=
  congrArg Rules.extent h.rules

theorem entered (h : first.SameButErased second) (p : Position) (text : String) :
    (first.entered p text).SameButErased (second.entered p text) := by
  rw [Sheet.entered, Sheet.entered, h.rules, Rules.display_sameButErased h.cells]
  exact h.cells.insert p _

theorem commit (h : first.SameButErased second) (inside : p ∈ first.extent)
    (inside' : p ∈ second.extent) :
    (first.commit p text inside).SameButErased (second.commit p text inside') where
  rules := h.rules
  cells := by
    change Cells.SameButErased (first.rules.recalculate _) (second.rules.recalculate _)
    rw [h.rules]
    exact Rules.recalculate_sameButErased (h.entered p text)

theorem edited (h : first.SameButErased second) (edit : Edit) :
    (first.edited edit).SameButErased (second.edited edit) := by
  obtain ⟨rules, grid⟩ := first
  obtain ⟨_, grid'⟩ := second
  obtain rfl := h.rules
  cases target : edit.target rules.extent with
  | error reason =>
    rwa [@edited_refused ⟨rules, grid⟩ _ _ target, @edited_refused ⟨rules, grid'⟩ _ _ target]
  | ok p =>
    rw [@edited_accepted ⟨rules, grid⟩ _ _ target, @edited_accepted ⟨rules, grid'⟩ _ _ target]
    exact h.commit p.property p.property

theorem editedAll (h : first.SameButErased second) (edits : List Edit) :
    (first.editedAll edits).SameButErased (second.editedAll edits) := by
  induction edits generalizing first second with
  | nil => exact h
  | cons edit rest ih => exact ih (h.edited edit)

theorem cycleAt? (h : first.SameButErased second) (p : Position) :
    first.cycleAt? p = second.cycleAt? p := by
  rw [Sheet.cycleAt?, Sheet.cycleAt?, h.rules, Rules.graph_sameButErased h.cells]

end SameButErased

end Sheet

namespace SavedSheet

variable {σ σ' : Type} {first : SavedSheet (StateM σ)} {second : SavedSheet (StateM σ')}

/-- Erased cells cannot be observed. If two documents hold the same cells, but for erased ones that
are stored in one of them only, then this is so after any edits made to both, and every cell, every
path to a cycle and the table are the same in both. -/
theorem erased_unobservable (rules : first.sheet.rules = second.sheet.rules)
    (cells : first.cells.SameButErased second.cells) (edits : List Edit) (world : σ)
    (world' : σ') :
    let left := ((first.editAll edits).run world).1
    let right := ((second.editAll edits).run world').1
    left.cells.SameButErased right.cells ∧
    (∀ p, left.cells.display p = right.cells.display p) ∧
    (∀ p, left.cells.cell p = right.cells.cell p) ∧
    (∀ p, left.sheet.cycleAt? p = right.sheet.cycleAt? p) ∧
    Table.render left.extent left.cells = Table.render right.extent right.cells := by
  intro left right
  have same : left.sheet.SameButErased right.sheet := by
    have reached : left = _ := saved_editAll first edits world
    have reached' : right = _ := saved_editAll second edits world'
    rw [reached, reached']
    exact Sheet.SameButErased.editedAll ⟨rules, cells⟩ edits
  refine ⟨same.cells, same.cells.display, Cells.sameButErased_iff.mp same.cells, same.cycleAt?, ?_⟩
  change Table.render left.sheet.extent _ = Table.render right.sheet.extent _
  rw [same.extent]
  exact Table.render_sameButErased _ same.cells

/-- A1 was erased in the first document and never written in the second. What refers to it reads
the same there, also in strict mode. -/
theorem erased_unobservable_strict :
    let extent : Extent := ⟨10, 10, by decide, by decide, by decide⟩
    let rules : Rules := ⟨extent, .dependency, .error, .ok⟩
    let cells : Cells := .ofList [(⟨0, 1⟩, ⟨"=A1+1", "0+1"⟩)]
    let erased : Cells := cells.insert ⟨0, 0⟩ .empty
    let first : SavedSheet (StateM Unit) := ⟨.default, ⟨rules, .ofCells erased⟩, none⟩
    let second : SavedSheet (StateM Unit) := ⟨.default, ⟨rules, .ofCells cells⟩, some .readOnly⟩
    let edits : List Edit := [.label "C1" "=A1&B1", .label "AA1" "7"]
    let left := ((first.editAll edits).run ()).1
    let right := ((second.editAll edits).run ()).1
    first.sheet.rules = second.sheet.rules ∧ first.cells.SameButErased second.cells ∧
    left.cells ≠ right.cells ∧ left.cells.SameButErased right.cells ∧
    right.cells.display ⟨0, 2⟩ = "0&0+1" ∧ left.cells.display ⟨0, 2⟩ = "0&0+1" := by
  intro extent rules cells erased first second edits left right
  have same : first.cells.SameButErased second.cells := by
    have stored : first.cells = erased := by decide +kernel
    have stored' : second.cells = cells := by decide +kernel
    refine Cells.sameButErased_iff.mpr fun p => ?_
    rw [stored, stored', Cells.cell_insert]
    split
    next here => exact here ▸ by decide +kernel
    next => rfl
  have sameRules : first.sheet.rules = second.sheet.rules := rfl
  obtain ⟨still, displays, _⟩ := erased_unobservable sameRules same edits () ()
  have shown : right.cells.display ⟨0, 2⟩ = "0&0+1" := by decide +kernel
  exact ⟨sameRules, same, by decide +kernel, still, shown, (displays _).trans shown⟩

end SavedSheet

end Worksheet
