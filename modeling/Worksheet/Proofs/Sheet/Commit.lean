import Mathlib.Data.List.DropRight
import Worksheet.Proofs.Recalculation.Settled
import Worksheet.Sheet

/-! What commits do to a sheet, saved or not. A document is followed from its opening through any
commits; whatever its medium answers, a commit inside the grid puts the same cells into memory. -/
namespace Worksheet

namespace Text

theorem trimStart_trimEnd {cs : List Char} (h : trimStart cs = cs) :
    trimStart (trimEnd cs) = trimEnd cs := by
  refine List.dropWhile_eq_self_iff.mpr fun nonempty => ?_
  have front : trimEnd cs <+: cs := List.rdropWhile_prefix isBlank cs
  rw [front.getElem]
  exact List.dropWhile_eq_self_iff.mp h (nonempty.trans_le front.length_le)

theorem trim_trim (s : String) : trim (trim s) = trim s := by
  have start : trimStart (trimStart s.toList) = trimStart s.toList := List.dropWhile_idempotent ..
  have ending (cs : List Char) : trimEnd (trimEnd cs) = trimEnd cs := List.rdropWhile_idempotent ..
  rw [trim, trim, String.toList_ofList, trimStart_trimEnd start, ending]

end Text

namespace Rules

variable {rules : Rules} {cells : Cells} {q : Position}

theorem raw?_recalculate (rules : Rules) (cells : Cells) (q : Position) :
    (rules.recalculate cells).raw? q = cells.raw? q := by
  unfold recalculate
  split
  · exact raw?_foldl (raw?_recompute rules) ..
  · exact raw?_settle rules cells q

end Rules

namespace Sheet

variable {sheet : Sheet} {p : Position} {text : String}

theorem commit_trim (inside : p ∈ sheet.extent) :
    sheet.commit p (Text.trim text) inside = sheet.commit p text inside := by
  simp only [commit, entered, Text.trim_trim]

/-- A commit keeps what was entered, without the blanks around it, and no other text changes. -/
theorem raw?_commit (inside : p ∈ sheet.extent) (q : Position) :
    (sheet.commit p text inside).cells.raw? q =
      if p = q then some (Text.trim text) else sheet.cells.raw? q :=
  (Rules.raw?_recalculate ..).trans (Cells.raw?_insert ..)

theorem cells_commit (mode : sheet.rules.recalculation = .dependency) (inside : p ∈ sheet.extent) :
    (sheet.commit p text inside).cells = sheet.rules.settle (sheet.entered p text) := by
  change sheet.rules.recalculate _ = _
  rw [Rules.recalculate, mode]

theorem settled_commit (mode : sheet.rules.recalculation = .dependency)
    (inside : p ∈ sheet.extent) : sheet.rules.Settled (sheet.commit p text inside).cells := by
  rw [cells_commit mode]
  exact Rules.settle_settled ..

/-- The text entered may be a formula or not; either way the commit leaves canonical cells. -/
theorem canonical_commit (mode : sheet.rules.recalculation = .dependency)
    (h : sheet.rules.Canonical sheet.cells) (inside : p ∈ sheet.extent) :
    sheet.rules.Canonical (sheet.commit p text inside).cells := by
  refine ⟨settled_commit mode inside, fun q raw stored literal => ?_⟩
  rw [cells_commit mode] at stored ⊢
  rw [Rules.raw?_settle] at stored
  have other : (sheet.entered p text).expression? q = none := by
    simp [Cells.expression?, stored, literal]
  rw [Rules.display_settle_other other]
  rw [entered, Cells.raw?_insert] at stored
  rw [entered, Cells.display_insert]
  by_cases same : p = q
  · obtain rfl : Text.trim text = raw := by simpa [same] using stored
    simp [same, Rules.display, literal]
  · rw [if_neg same] at stored ⊢
    exact h.literals q raw stored literal

end Sheet

namespace SavedSheet

variable {σ : Type}

/-- The document that a commit leaves, whatever the world is like when it is written. -/
def after (saved : SavedSheet (StateM σ)) (p : Position) (text : String) (world : σ) :
    SavedSheet (StateM σ) := ((saved.commit p text).run world).1.saved

variable {saved : SavedSheet (StateM σ)} {p : Position} {text : String}

/-- The write may fail: the commit stays. -/
theorem after_inside (inside : p ∈ saved.extent) (world : σ) :
    saved.after p text world = { saved with sheet := saved.sheet.commit p text inside } := by
  have inside : p ∈ saved.sheet.extent := inside
  simp only [after, commit, dif_pos inside, StateT.run_bind]
  rcases StateT.run (save { saved with sheet := saved.sheet.commit p text inside }) world with
    ⟨_ | _, _⟩ <;> rfl

theorem after_outside (outside : p ∉ saved.extent) (world : σ) :
    saved.after p text world = saved := by
  have outside : p ∉ saved.sheet.extent := outside
  simp only [after, commit, dif_neg outside]
  rfl

theorem rules_after (saved : SavedSheet (StateM σ)) (p : Position) (text : String) (world : σ) :
    (saved.after p text world).sheet.rules = saved.sheet.rules := by
  by_cases inside : p ∈ saved.extent
  · rw [after_inside inside]
    rfl
  · rw [after_outside inside]

theorem extent_after (saved : SavedSheet (StateM σ)) (p : Position) (text : String) (world : σ) :
    (saved.after p text world).extent = saved.extent := congrArg Rules.extent (rules_after ..)

theorem raw?_after (saved : SavedSheet (StateM σ)) (p : Position) (text : String) (world : σ)
    (q : Position) : (saved.after p text world).cells.raw? q =
      if p ∈ saved.extent ∧ p = q then some (Text.trim text) else saved.cells.raw? q := by
  by_cases inside : p ∈ saved.extent
  · rw [after_inside inside]
    simp only [inside, true_and]
    exact Sheet.raw?_commit inside q
  · rw [after_outside inside, if_neg fun h => inside h.1]

end SavedSheet

end Worksheet
