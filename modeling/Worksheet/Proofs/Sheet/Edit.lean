import Worksheet.Proofs.Sheet.Commit

/-! Edits of a document. An edit names its cell by position or by label, and it is refused before
anything happens if there is no such cell in the grid. What edits make of the sheet in memory does
not depend on the medium, nor on what it answers. -/
namespace Worksheet

theorem Extent.mem_of_cell? {extent : Extent} {label : String} {p : Position}
    (named : extent.cell? label = some p) : p ∈ extent := by
  rw [cell?, Option.filter_eq_some_iff] at named
  exact of_decide_eq_true named.2

/-- A text to commit, to a position or to the cell that a label names. -/
inductive Edit where
  | position (p : Position) (text : String)
  | label (name text : String)
deriving DecidableEq

namespace Edit

def text : Edit → String
  | position _ text => text
  | label _ text => text

/-- The cell of the grid that an edit is for, or the reason why it is refused. -/
def target (extent : Extent) : Edit → Except CommitError { p // p ∈ extent }
  | position p _ => if inside : p ∈ extent then .ok ⟨p, inside⟩ else .error (.outside p)
  | label name _ =>
    match named : extent.cell? name with
    | some p => .ok ⟨p, Extent.mem_of_cell? named⟩
    | none => .error (.unknownLabel name)

/-- The text that an edit puts at a position. -/
def entered? (extent : Extent) (edit : Edit) (q : Position) : Option String :=
  match edit.target extent with
  | .ok p => if p = q then some (Text.trim edit.text) else none
  | .error _ => none

/-- The text that edits leave at a position: that of the last one that puts a text there. -/
def lastEntered? (extent : Extent) (edits : List Edit) (q : Position) : Option String :=
  (edits.filterMap (·.entered? extent q)).getLast?

theorem lastEntered?_cons (extent : Extent) (edit : Edit) (rest : List Edit) (q : Position) :
    lastEntered? extent (edit :: rest) q =
      (lastEntered? extent rest q).or (edit.entered? extent q) := by
  rw [lastEntered?, lastEntered?, List.filterMap_cons]
  cases edit.entered? extent q with
  | none => exact (Option.or_none ..).symm
  | some text =>
    simp only [List.getLast?_cons]
    cases (rest.filterMap (·.entered? extent q)).getLast? <;> rfl

end Edit

namespace Sheet

/-- What an edit makes of a sheet. A refused edit changes nothing. -/
def edited (sheet : Sheet) (edit : Edit) : Sheet :=
  match edit.target sheet.extent with
  | .ok p => sheet.commit p edit.text p.property
  | .error _ => sheet

def editedAll (sheet : Sheet) (edits : List Edit) : Sheet := edits.foldl edited sheet

section

variable {sheet : Sheet} {edit : Edit}

theorem edited_refused {reason : CommitError}
    (refused : edit.target sheet.extent = .error reason) : sheet.edited edit = sheet := by
  simp only [edited, refused]

theorem edited_accepted {p : { p // p ∈ sheet.extent }}
    (accepted : edit.target sheet.extent = .ok p) :
    sheet.edited edit = sheet.commit p edit.text p.property := by
  simp only [edited, accepted]

theorem raw?_edited (sheet : Sheet) (edit : Edit) (q : Position) :
    (sheet.edited edit).cells.raw? q =
      (edit.entered? sheet.extent q).or (sheet.cells.raw? q) := by
  rw [Edit.entered?]
  cases target : edit.target sheet.extent with
  | error reason =>
    rw [edited_refused target]
    rfl
  | ok p =>
    rw [edited_accepted target, raw?_commit]
    by_cases here : p = q <;> simp [here]

theorem canonical_edited (mode : sheet.rules.recalculation = .dependency)
    (h : sheet.rules.Canonical sheet.cells) (edit : Edit) :
    sheet.rules.Canonical (sheet.edited edit).cells := by
  cases target : edit.target sheet.extent with
  | error reason => rwa [edited_refused target]
  | ok p =>
    rw [edited_accepted target]
    exact canonical_commit mode h p.property

end

theorem rules_edited (sheet : Sheet) (edit : Edit) : (sheet.edited edit).rules = sheet.rules := by
  unfold edited
  split <;> rfl

theorem rules_editedAll (sheet : Sheet) (edits : List Edit) :
    (sheet.editedAll edits).rules = sheet.rules := by
  induction edits generalizing sheet with
  | nil => rfl
  | cons edit rest ih => exact (ih _).trans (rules_edited sheet edit)

theorem canonical_editedAll {sheet : Sheet} (mode : sheet.rules.recalculation = .dependency)
    (h : sheet.rules.Canonical sheet.cells) (edits : List Edit) :
    sheet.rules.Canonical (sheet.editedAll edits).cells := by
  induction edits generalizing sheet with
  | nil => exact h
  | cons edit rest ih =>
    have first := canonical_edited mode h edit
    rw [← rules_edited sheet edit] at mode first ⊢
    exact ih mode first

theorem raw?_editedAll (sheet : Sheet) (edits : List Edit) (q : Position) :
    (sheet.editedAll edits).cells.raw? q =
      (Edit.lastEntered? sheet.extent edits q).or (sheet.cells.raw? q) := by
  induction edits generalizing sheet with
  | nil => rfl
  | cons edit rest ih =>
    have extent : (sheet.edited edit).extent = sheet.extent :=
      congrArg Rules.extent (rules_edited sheet edit)
    rw [Edit.lastEntered?_cons, Option.or_assoc, ← raw?_edited, ← extent]
    exact ih (sheet.edited edit)

/-- The texts that edits leave depend on nothing but the grid and the texts before. -/
theorem raws_editedAll {first second : Sheet} (extent : first.extent = second.extent)
    (raws : ∀ p, first.cells.raw? p = second.cells.raw? p) (edits : List Edit) (p : Position) :
    (first.editedAll edits).cells.raw? p = (second.editedAll edits).cells.raw? p := by
  rw [raw?_editedAll, raw?_editedAll, extent, raws p]

end Sheet

namespace SavedSheet

section

variable {m : Type → Type} [Monad m]

def edit (saved : SavedSheet m) : Edit → m (Committed m)
  | .position p text => saved.commit p text
  | .label name text => saved.commitLabel name text

def editAll (saved : SavedSheet m) : List Edit → m (SavedSheet m)
  | [] => return saved
  | edit :: rest => do
    let left ← saved.edit edit
    left.saved.editAll rest

def saving (saved : SavedSheet m) (notices : List Notice) : Except FileError Unit → Committed m
  | .ok () => ⟨.ok saved.cells, saved, notices⟩
  | .error e =>
    ⟨.error (.notSaved e), saved, notices ++ [.notSaved saved.settings.slot e.message]⟩

variable {saved : SavedSheet m} {edit : Edit}

omit [Monad m] in
theorem saved_saving (saved : SavedSheet m) (notices : List Notice)
    (answer : Except FileError Unit) : (saved.saving notices answer).saved = saved := by
  cases answer <;> rfl

/-- A refused edit does nothing at all. -/
theorem edit_refused {reason : CommitError} (refused : edit.target saved.extent = .error reason) :
    saved.edit edit = pure ⟨.error reason, saved, []⟩ := by
  cases edit with
  | position p text =>
    by_cases inside : p ∈ saved.extent
    · simp [Edit.target, inside] at refused
    · obtain rfl : CommitError.outside p = reason := by simpa [Edit.target, inside] using refused
      exact dif_neg inside
  | label name text =>
    rw [Edit.target] at refused
    split at refused
    · cases refused
    next unknown =>
      cases refused
      simp only [SavedSheet.edit, commitLabel, unknown]

/-- An edit that is not refused is a commit, and its only effect on the world is one write. -/
theorem edit_accepted [LawfulMonad m] {p : { p // p ∈ saved.extent }}
    (accepted : edit.target saved.extent = .ok p) :
    let after := { saved with sheet := saved.sheet.edited edit }
    saved.edit edit = after.saving (saved.sheet.commitNotices p edit.text) <$> after.save := by
  intro after
  have made : saved.sheet.edited edit = saved.sheet.commit p edit.text p.property :=
    Sheet.edited_accepted accepted
  have commits : saved.edit edit = saved.commit p edit.text := by
    cases edit with
    | position q text =>
      rw [Edit.target] at accepted
      split at accepted
      · cases accepted
        rfl
      · cases accepted
    | label name text =>
      rw [Edit.target] at accepted
      split at accepted
      next named =>
        cases accepted
        simp only [SavedSheet.edit, commitLabel, named]
        rfl
      · cases accepted
  have inside : p.1 ∈ saved.sheet.extent := p.property
  rw [commits, commit, dif_pos inside, map_eq_pure_bind]
  simp only [after, made]
  refine bind_congr fun answer => ?_
  cases answer <;> rfl

end

variable {σ : Type}

theorem saved_edit (saved : SavedSheet (StateM σ)) (edit : Edit) (world : σ) :
    ((saved.edit edit).run world).1.saved = { saved with sheet := saved.sheet.edited edit } := by
  cases target : edit.target saved.extent with
  | error reason =>
    rw [edit_refused target, Sheet.edited_refused target]
    rfl
  | ok p =>
    rw [edit_accepted target, StateT.run_map]
    exact saved_saving ..

theorem run_editAll_cons (saved : SavedSheet (StateM σ)) (edit : Edit) (rest : List Edit)
    (world : σ) :
    let left := (saved.edit edit).run world
    (saved.editAll (edit :: rest)).run world = (left.1.saved.editAll rest).run left.2 := rfl

theorem run_editAll_append (saved : SavedSheet (StateM σ)) (edits later : List Edit) (world : σ) :
    let left := (saved.editAll edits).run world
    (saved.editAll (edits ++ later)).run world = (left.1.editAll later).run left.2 := by
  induction edits generalizing saved world with
  | nil => rfl
  | cons edit rest ih =>
    intro left
    rw [List.cons_append, run_editAll_cons]
    exact ih _ _

/-- Memory after any edits. -/
theorem saved_editAll (saved : SavedSheet (StateM σ)) (edits : List Edit) (world : σ) :
    ((saved.editAll edits).run world).1 =
      { saved with sheet := saved.sheet.editedAll edits } := by
  induction edits generalizing saved world with
  | nil => rfl
  | cons edit rest ih =>
    have first := saved_edit saved edit world
    rw [run_editAll_cons, ih, first]
    rfl

theorem cells_editAll (saved : SavedSheet (StateM σ)) (edits : List Edit) (world : σ) :
    ((saved.editAll edits).run world).1.cells = (saved.sheet.editedAll edits).cells :=
  congrArg SavedSheet.cells (saved_editAll saved edits world)

end SavedSheet

end Worksheet
