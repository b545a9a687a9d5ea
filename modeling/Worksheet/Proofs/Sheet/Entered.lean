import Worksheet.Proofs.Recalculation.Sweep
import Worksheet.Proofs.Sheet.Edit
import Worksheet.Proofs.Sheet.History

/-! What a document holds is what was entered. The cells that the slot held and those that were
committed are there and no others, with the last text of each, and a text that is no formula shows
what it showed when it came. Recalculation, in either mode, touches displays of formulas only. -/
namespace Worksheet

theorem Cells.mem_keys {cells : Cells} {p : Position} :
    p ∈ cells.keys ↔ ∃ raw, cells.raw? p = some raw := by
  rw [← OrderedMap.contains_iff, OrderedMap.contains_iff_get?, Cells.raw?]
  cases cells.get? p <;> simp

namespace Edit

variable {extent : Extent} {edit : Edit} {edits : List Edit} {q : Position}

/-- The edit is accepted, and this is the cell that it is for. -/
def Enters (extent : Extent) (edit : Edit) (q : Position) : Prop :=
  ∃ inside, edit.target extent = .ok ⟨q, inside⟩

theorem entered?_isSome : (edit.entered? extent q).isSome ↔ edit.Enters extent q := by
  rw [entered?, Enters]
  cases edit.target extent with
  | error reason => simp
  | ok p =>
    by_cases here : p.1 = q
    · subst here
      simpa using p.property
    · have other : ∀ inside, p ≠ ⟨q, inside⟩ := fun _ same => here (congrArg Subtype.val same)
      simp [here, other]

theorem lastEntered?_isSome :
    (lastEntered? extent edits q).isSome ↔ ∃ edit ∈ edits, edit.Enters extent q := by
  induction edits with
  | nil => simp [lastEntered?]
  | cons edit rest ih =>
    rw [lastEntered?_cons, Option.isSome_or, Bool.or_eq_true, ih, entered?_isSome, or_comm]
    exact (List.exists_mem_cons_iff (Enters extent · q) edit rest).symm

end Edit

namespace Rules

variable {rules : Rules} {cells : Cells} {q : Position}

theorem display_recalculate_other (other : cells.expression? q = none) :
    (rules.recalculate cells).display q = cells.display q := by
  unfold recalculate
  split
  · exact display_sweep_other other
  · exact display_settle_other other

end Rules

namespace Sheet

variable {sheet : Sheet} {edit : Edit} {q : Position}

theorem display_edited (other : (sheet.edited edit).cells.expression? q = none) :
    (sheet.edited edit).cells.display q =
      (edit.entered? sheet.extent q).getD (sheet.cells.display q) := by
  rw [Edit.entered?]
  cases target : edit.target sheet.extent with
  | error reason =>
    rw [edited_refused target]
    rfl
  | ok p =>
    rw [edited_accepted target] at other ⊢
    have before : (sheet.entered p edit.text).expression? q = none := by
      rw [← other]
      exact congrArg (·.bind Cell.expression?) (Rules.raw?_recalculate ..).symm
    have shown : (sheet.commit p edit.text p.property).cells.display q =
        (sheet.entered p edit.text).display q := Rules.display_recalculate_other before
    rw [shown, entered, Cells.display_insert]
    by_cases here : p.1 = q
    · rw [Cells.expression?, entered, Cells.raw?_insert, if_pos here, Option.bind_some] at before
      simp only [if_pos here, Rules.display, before, Option.getD_some]
    · simp only [if_neg here, Option.getD_none]

theorem display_editedAll {edits : List Edit}
    (other : (sheet.editedAll edits).cells.expression? q = none) :
    (sheet.editedAll edits).cells.display q =
      (Edit.lastEntered? sheet.extent edits q).getD (sheet.cells.display q) := by
  induction edits generalizing sheet with
  | nil => rfl
  | cons edit rest ih =>
    have extent : (sheet.edited edit).extent = sheet.extent :=
      congrArg Rules.extent (rules_edited sheet edit)
    have later : (sheet.editedAll (edit :: rest)).cells.display q =
        (Edit.lastEntered? sheet.extent rest q).getD ((sheet.edited edit).cells.display q) := by
      rw [← extent]
      exact ih other
    rw [later, Edit.lastEntered?_cons]
    cases last : Edit.lastEntered? sheet.extent rest q with
    | some text => rfl
    | none =>
      -- No later edit puts a text here, so what this edit leaves is no formula either.
      have stands : (sheet.edited edit).cells.raw? q =
          (sheet.editedAll (edit :: rest)).cells.raw? q := by
        change _ = ((sheet.edited edit).editedAll rest).cells.raw? q
        rw [raw?_editedAll, extent, last, Option.none_or]
      rw [Cells.expression?, ← stands] at other
      exact display_edited other

end Sheet

/-- The cells in what reading a slot gave. There are none without a text that can be decoded. -/
def Slot.cellsOf : Except FileError (Option String) → Cells
  | .ok (some text) => (decode text).elim .empty Content.cells
  | _ => .empty

theorem Sheet.get?_loaded (rules : Rules) (slot : String)
    (answer : Except FileError (Option String)) (p : Position) :
    ((blank rules).loaded slot answer).1.cells.get? p =
      if p ∈ rules.extent then (Slot.cellsOf answer).get? p else none := by
  have nothing : none = if p ∈ rules.extent then (OrderedMap.empty : Cells).get? p else none :=
    (ite_self _).symm
  rcases answer with e | _ | text
  · exact nothing
  · exact nothing
  · simp only [loaded, Slot.cellsOf]
    cases Slot.decode text with
    | none => exact nothing
    | some content =>
      change (OrderedMap.filter (fun q _ => decide (q ∈ rules.extent)) content.cells).get? p = _
      rw [OrderedMap.get?_filter]
      by_cases inside : p ∈ rules.extent
      · cases found : OrderedMap.get? content.cells p <;> simp [inside, found]
      · simp [inside]

namespace Sheet

variable {rules : Rules} {slot : String} {answer : Except FileError (Option String)}
  {edits : List Edit} {p : Position}

theorem extent_loaded : ((blank rules).loaded slot answer).1.extent = rules.extent :=
  congrArg Rules.extent (SavedSheet.rules_loaded ..)

theorem raw?_loaded_edited :
    (((blank rules).loaded slot answer).1.editedAll edits).cells.raw? p =
      (Edit.lastEntered? rules.extent edits p).or
        (if p ∈ rules.extent then (Slot.cellsOf answer).raw? p else none) := by
  rw [raw?_editedAll, extent_loaded]
  simp only [Cells.raw?, get?_loaded]
  split <;> rfl

theorem mem_keys_loaded_edited :
    p ∈ (((blank rules).loaded slot answer).1.editedAll edits).cells.keys ↔
      p ∈ rules.extent ∧ p ∈ (Slot.cellsOf answer).keys ∨
        ∃ edit ∈ edits, edit.Enters rules.extent p := by
  rw [Cells.mem_keys, Cells.mem_keys, ← Option.isSome_iff_exists, ← Option.isSome_iff_exists,
    raw?_loaded_edited, ← Edit.lastEntered?_isSome, Option.isSome_or, Bool.or_eq_true, or_comm]
  by_cases inside : p ∈ rules.extent <;> simp [inside]

theorem raw?_loaded_edited_iff {raw : String} :
    (((blank rules).loaded slot answer).1.editedAll edits).cells.raw? p = some raw ↔
      Edit.lastEntered? rules.extent edits p = some raw ∨
        Edit.lastEntered? rules.extent edits p = none ∧ p ∈ rules.extent ∧
          (Slot.cellsOf answer).raw? p = some raw := by
  rw [raw?_loaded_edited]
  cases Edit.lastEntered? rules.extent edits p with
  | some text => simp
  | none => by_cases inside : p ∈ rules.extent <;> simp [inside]

/-- A text that is no formula shows itself from its first commit on. -/
theorem display_loaded_edited {raw : String}
    (found : (((blank rules).loaded slot answer).1.editedAll edits).cells.raw? p = some raw)
    (literal : Cell.expression? raw = none) :
    (((blank rules).loaded slot answer).1.editedAll edits).cells.display p =
      if Edit.lastEntered? rules.extent edits p = none then (Slot.cellsOf answer).display p
      else raw := by
  let sheet := ((blank rules).loaded slot answer).1
  have other : (sheet.editedAll edits).cells.expression? p = none := by
    rw [Cells.expression?, found]
    exact literal
  rw [display_editedAll other, extent_loaded]
  rcases raw?_loaded_edited_iff.mp found with entered | ⟨unentered, inside, _⟩
  · rw [entered, if_neg (Option.some_ne_none raw)]
    rfl
  · rw [unentered, if_pos rfl, Option.getD_none, Cells.display, get?_loaded, if_pos inside]
    rfl

end Sheet

namespace SavedSheet

variable {σ : Type} {settings : Settings} {evaluate : Evaluator} {extent : Extent}

/-- Opening reads the slot once, and what reading answers is all that counts. -/
theorem run_load (valid : settings.validate = .ok extent) (medium : Medium (StateM σ)) (world : σ) :
    let answer := (medium.read settings.slot).run world
    let loaded := (Sheet.blank (rulesOf settings evaluate extent)).loaded settings.slot answer.1
    (load settings evaluate (some medium)).run world =
      (.ok (⟨settings, loaded.1, some medium⟩, loaded.2), answer.2) := by
  simp only [load, ofSettings_valid valid, StateT.run_bind]
  rfl

theorem result_edit (saved : SavedSheet (StateM σ)) (edit : Edit) (world : σ) {snapshot : Cells}
    (answered : ((saved.edit edit).run world).1.result = .ok snapshot) :
    snapshot = ((saved.edit edit).run world).1.saved.cells := by
  cases target : edit.target saved.extent with
  | error reason =>
    rw [edit_refused target] at answered
    cases answered
  | ok p =>
    let after := { saved with sheet := saved.sheet.edited edit }
    let notices := saved.sheet.commitNotices p edit.text
    rw [edit_accepted target, StateT.run_map] at answered ⊢
    have answered : (after.saving notices (after.save.run world).1).result = .ok snapshot :=
      answered
    change snapshot = (after.saving notices (after.save.run world).1).saved.cells
    cases written : (after.save.run world).1 with
    | ok =>
      rw [written] at answered
      cases answered
      rfl
    | error e =>
      rw [written] at answered
      cases answered

/-- A document keeps exactly what was entered. It opens from whatever reading its slot answers, and
after any edits it holds, at places of the grid only, the cells that the slot held there and those
that were committed; each has the text of its last commit, or the one from the slot, and a text that
is no formula shows itself if it was committed, and what it showed in the slot if it was not. -/
theorem keeps_entered (valid : settings.validate = .ok extent) (medium : Medium (StateM σ))
    (world : σ) (edits : List Edit) (later : σ) :
    let answer := (medium.read settings.slot).run world
    let loaded := Slot.cellsOf answer.1
    ∃ opened notices,
      (load settings evaluate (some medium)).run world = (.ok (opened, notices), answer.2) ∧
      let left := (opened.editAll edits).run later
      let cells := left.1.cells
      let last := Edit.lastEntered? extent edits
      (∀ p ∈ cells.keys, p ∈ extent) ∧
      (∀ p, p ∈ cells.keys ↔
        p ∈ extent ∧ p ∈ loaded.keys ∨ ∃ edit ∈ edits, edit.Enters extent p) ∧
      (∀ p raw, cells.raw? p = some raw ↔
        last p = some raw ∨ last p = none ∧ p ∈ extent ∧ loaded.raw? p = some raw) ∧
      (∀ p raw, cells.raw? p = some raw → Cell.expression? raw = none →
        cells.display p = if last p = none then loaded.display p else raw) ∧
      cells.entries.Pairwise (fun a b => a.1 < b.1) ∧
      cells.formulas.Pairwise (fun a b => a.1 < b.1) ∧ cells.formulaPositions.Pairwise (· < ·) ∧
      ∀ edit snapshot, ((left.1.edit edit).run left.2).1.result = .ok snapshot →
        snapshot = ((left.1.edit edit).run left.2).1.saved.cells := by
  intro answer loaded
  refine ⟨_, _, run_load valid medium world, ?_⟩
  intro left cells last
  let sheet := ((Sheet.blank (rulesOf settings evaluate extent)).loaded settings.slot answer.1).1
  have made : cells = (sheet.editedAll edits).cells := cells_editAll ..
  have stored (p : Position) : p ∈ cells.keys ↔
      p ∈ extent ∧ p ∈ loaded.keys ∨ ∃ edit ∈ edits, edit.Enters extent p := by
    rw [made]
    exact Sheet.mem_keys_loaded_edited
  refine ⟨fun p member => ?_, stored, fun p raw => ?_, fun p raw found literal => ?_,
    cells.ascending, cells.formulas_ascending, cells.formulaPositions_ascending,
    fun edit snapshot => result_edit left.1 edit left.2⟩
  · rcases (stored p).mp member with ⟨inside, _⟩ | ⟨_, _, inside, _⟩ <;> exact inside
  · rw [made]
    exact Sheet.raw?_loaded_edited_iff
  · rw [made] at found ⊢
    exact Sheet.display_loaded_edited found literal

/-- The slot holds a formula, a text that shows something else, and a cell outside the grid. Of the
commits, two go to A2, and two name no cell of the grid. -/
theorem keeps_entered_loaded :
    let settings := Settings.default
    let extent : Extent := ⟨10, 10, by decide, by decide, by decide⟩
    let text :=
      "\x7b\"0-0\":[\"=A2\",\"7\"],\"0-1\":[\"text\",\"shown\"],\"99-0\":[\"x\",\"x\"]\x7d"
    let world : Shelf := .ofList [("spreadsheet", text)]
    let edits : List Edit := [.label "A2" " 5 ", .position ⟨10, 0⟩ "7", .label "A2" "6 ",
      .label "AA1" "1"]
    settings.validate = .ok extent ∧
    ∃ opened notices,
      (load settings .ok (some .memory)).run world = (.ok (opened, notices), world) ∧
      let cells := ((opened.editAll edits).run world).1.cells
      cells.raw? ⟨0, 0⟩ = some "=A2" ∧ cells.raw? ⟨1, 0⟩ = some "6" ∧
      cells.display ⟨1, 0⟩ = "6" ∧ cells.display ⟨0, 1⟩ = "shown" ∧ ⟨99, 0⟩ ∉ cells.keys ∧
      ⟨10, 0⟩ ∉ cells.keys := by
  intro settings extent text world edits
  have valid : settings.validate = .ok extent := by decide +kernel
  obtain ⟨opened, notices, loads, inside, _, raws, displays, _⟩ :=
    @keeps_entered _ _ .ok _ valid .memory world edits world
  refine ⟨valid, opened, notices, loads, ?_⟩
  have formula := (raws ⟨0, 0⟩ "=A2").mpr (.inr (by decide +kernel))
  have committed := (raws ⟨1, 0⟩ "6").mpr (.inl (by decide +kernel))
  have kept := (raws ⟨0, 1⟩ "text").mpr (.inr (by decide +kernel))
  have shown := displays ⟨1, 0⟩ "6" committed (by decide)
  have shown' := displays ⟨0, 1⟩ "text" kept (by decide)
  refine ⟨formula, committed, shown.trans (by decide +kernel), shown'.trans (by decide +kernel),
    fun member => ?_, fun member => ?_⟩
  · exact absurd (inside _ member) (by decide)
  · exact absurd (inside _ member) (by decide)

end SavedSheet

end Worksheet
