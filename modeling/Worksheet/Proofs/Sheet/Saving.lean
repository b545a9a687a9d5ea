import Worksheet.Proofs.Sheet.Edit
import Worksheet.Proofs.Slot.Medium

/-! Documents whose writes may fail. Memory does not depend on what the medium answers, so an edit
whose write failed is neither changed nor lost: it is in memory at once, and in the slot with the
next write that succeeds. -/
namespace Worksheet.SavedSheet

variable {σ : Type} {settings : Settings} {sheet : Sheet} {medium : Medium (StateM σ)}
  {holds : σ → Option String} {edit : Edit}

theorem run_edit {p : { p // p ∈ sheet.extent }} (accepted : edit.target sheet.extent = .ok p)
    (world : σ) :
    let before : SavedSheet (StateM σ) := ⟨settings, sheet, some medium⟩
    let after : SavedSheet (StateM σ) := ⟨settings, sheet.edited edit, some medium⟩
    let write := (medium.write settings.slot (Slot.encode (sheet.edited edit).cells)).run world
    (before.edit edit).run world =
      (after.saving (sheet.commitNotices p edit.text) write.1, write.2) := by
  intro before after write
  have accepted : edit.target before.extent = .ok p := accepted
  rw [edit_accepted accepted, StateT.run_map]
  rfl

/-- The edit fails exactly when its write does, and what it leaves in the slot is either the whole
sheet or what was there. -/
theorem run_edit_replaces (replaces : medium.Replaces settings.slot holds)
    {p : { p // p ∈ sheet.extent }} (accepted : edit.target sheet.extent = .ok p) (world : σ) :
    let left := (SavedSheet.edit ⟨settings, sheet, some medium⟩ edit).run world
    let cells := (sheet.edited edit).cells
    ∃ answer, (medium.write settings.slot (Slot.encode cells)).run world = (answer, left.2) ∧
      (∀ reason, left.1.result = .error (.notSaved reason) ↔ answer = .error reason) ∧
      (∀ reason, answer = .error reason → holds left.2 = holds world) ∧
      (answer = .ok () → left.1.result = .ok cells ∧ holds left.2 = some (Slot.encode cells)) := by
  intro left cells
  have ran : left = _ := run_edit accepted world
  rcases answered : (medium.write settings.slot (Slot.encode cells)).run world with ⟨answer, world'⟩
  rw [answered] at ran
  rw [ran]
  refine ⟨answer, rfl, ?_⟩
  cases answer with
  | ok =>
    refine ⟨fun reason => ?_, nofun, fun _ => ⟨rfl, replaces.taken answered⟩⟩
    simp [saving]
  | error failure =>
    refine ⟨fun reason => ?_, fun _ _ => replaces.refused answered, nofun⟩
    simp [saving]

/-- Failures to write neither change nor lose edits. After any edits a document has in memory what
it would have without a medium. A further edit that is refused does nothing, to the document or to
the world. One that is accepted makes one write, of all that is then in memory, and fails exactly
when that write fails; if it succeeds, the slot holds what all edits so far have left. -/
theorem failures_lose_nothing (replaces : medium.Replaces settings.slot holds) (sheet : Sheet)
    (edits : List Edit) (start : σ) :
    let stored := (editAll ⟨settings, sheet, some medium⟩ edits).run start
    let unstored := (editAll (m := StateM Unit) ⟨settings, sheet, none⟩ edits).run ()
    stored.1.sheet = unstored.1.sheet ∧
    ∀ edit : Edit,
      let left := (stored.1.edit edit).run stored.2
      let cells := ((unstored.1.edit edit).run ()).1.saved.cells
      left.1.saved.cells = cells ∧
      (∀ reason, edit.target sheet.extent = .error reason →
        stored.1.edit edit = pure ⟨.error reason, stored.1, []⟩) ∧
      ∀ p, edit.target sheet.extent = .ok p →
        ∃ answer,
          (medium.write settings.slot (Slot.encode cells)).run stored.2 = (answer, left.2) ∧
          (∀ reason, left.1.result = .error (.notSaved reason) ↔ answer = .error reason) ∧
          (∀ reason, answer = .error reason → holds left.2 = holds stored.2) ∧
          (answer = .ok () →
            left.1.result = .ok cells ∧ holds left.2 = some (Slot.encode cells)) := by
  intro stored unstored
  have inMemory : stored.1 = ⟨settings, sheet.editedAll edits, some medium⟩ := saved_editAll ..
  have inMemory' : unstored.1 = ⟨settings, sheet.editedAll edits, none⟩ := saved_editAll ..
  have extent : (sheet.editedAll edits).extent = sheet.extent :=
    congrArg Rules.extent (Sheet.rules_editedAll sheet edits)
  refine ⟨by rw [inMemory, inMemory'], fun edit => ?_⟩
  have same : ((unstored.1.edit edit).run ()).1.saved.cells =
      ((sheet.editedAll edits).edited edit).cells := by
    rw [saved_edit, inMemory']
    rfl
  rw [same, inMemory, ← extent]
  refine ⟨?_, fun reason refused => edit_refused refused, fun p accepted => ?_⟩
  · rw [saved_edit]
    rfl
  · exact run_edit_replaces replaces accepted stored.2

/-- The first write is refused, and the second edit names no cell of the grid. The write of the
third edit saves the first one with it. -/
theorem failures_lose_nothing_late :
    let settings := Settings.default
    let extent : Extent := ⟨10, 10, by decide, by decide, by decide⟩
    let sheet := Sheet.blank ⟨extent, .linear, .zero, .ok⟩
    let edits : List Edit := [.label "A1" "5", .position ⟨10, 0⟩ "7"]
    let stored := (editAll ⟨settings, sheet, some .refusing⟩ edits).run
      ⟨.empty, [some .readOnly, none]⟩
    let left := (stored.1.edit (.label "B1" "=A1+1")).run stored.2
    Medium.refusing.Replaces settings.slot (Refusals.holds settings.slot) ∧
    stored.2.holds settings.slot = none ∧ stored.2.pattern = [none] ∧
    stored.1.edit (.label "AA1" "7") = pure ⟨.error (.unknownLabel "AA1"), stored.1, []⟩ ∧
    left.2.holds settings.slot = some
      "\x7b\"0-0\":\x7b\"raw\":\"5\",\"display\":\"5\"\x7d,\"0-1\":\x7b\"raw\":\"=A1+1\",\"display\":\"5+1\"\x7d\x7d" := by
  intro settings extent sheet edits stored left
  have replaces := Medium.refusing_replaces settings.slot
  obtain ⟨_, further⟩ :=
    failures_lose_nothing replaces sheet edits ⟨.empty, [some .readOnly, none]⟩
  obtain ⟨_, _, accepted⟩ := further (.label "B1" "=A1+1")
  obtain ⟨_, refused, _⟩ := further (.label "AA1" "7")
  obtain ⟨answer, written, _, _, saved⟩ := accepted ⟨⟨0, 1⟩, by decide⟩ (by decide +kernel)
  have taken : answer = .ok () := (congrArg Prod.fst written).symm.trans (by decide +kernel)
  refine ⟨replaces, by decide +kernel, by decide +kernel, refused _ (by decide +kernel), ?_⟩
  exact (saved taken).2.trans (by decide +kernel)

end Worksheet.SavedSheet
