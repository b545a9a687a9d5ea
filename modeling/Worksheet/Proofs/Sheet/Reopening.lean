import Worksheet.Proofs.Sheet.History
import Worksheet.Proofs.Slot.Medium
import Worksheet.Proofs.Slot.RoundTrip

/-! Documents that are closed and opened again. On a medium that keeps its slot, a document is at
any time what opening the slot would give: before the first commit because it was opened so, and
after a commit because a saved sheet reads back as itself. -/
namespace Worksheet

theorem Grid.ofCells_cells {extent : Extent} (grid : Grid extent) : ofCells grid.cells = grid := by
  have all : grid.cells.filter (fun p _ => p ∈ extent) = grid.cells := by
    refine OrderedMap.ext_entries (List.filter_eq_self.mpr fun e member => ?_)
    exact decide_eq_true (grid.inside e.1 (List.mem_map_of_mem member))
  cases grid
  simp only [ofCells, all]

namespace Sheet

/-- What a slot with this text opens as. -/
def ofText (rules : Rules) (slot : String) (text : Option String) : Sheet :=
  ((blank rules).loaded slot (.ok text)).1

theorem rules_ofText (rules : Rules) (slot : String) (text : Option String) :
    (ofText rules slot text).rules = rules := SavedSheet.rules_loaded ..

/-- A saved sheet opens as it was, with the displays it had. -/
theorem ofText_encode (sheet : Sheet) (slot : String) :
    ofText sheet.rules slot (some (Slot.encode sheet.cells)) = sheet := by
  have decoded : Slot.decode (Slot.encode sheet.cells) = some ⟨sheet.cells, []⟩ := by
    rw [Slot.decode, Slot.entries?_encode, Option.map_some, Slot.collect_byKey]
  have kept : Grid.ofCells sheet.cells = sheet.grid := Grid.ofCells_cells sheet.grid
  simp only [ofText, loaded, decoded, restore, blank, kept]

/-- The text in the slot after a commit. A commit outside the grid writes nothing. -/
def textAfter (sheet : Sheet) (text : Option String) (p : Position) (entered : String) :
    Option String :=
  if inside : p ∈ sheet.extent then some (Slot.encode (sheet.commit p entered inside).cells)
  else text

def textAfterLabel (sheet : Sheet) (text : Option String) (label entered : String) :
    Option String :=
  (sheet.extent.cell? label).elim text fun p => sheet.textAfter text p entered

theorem textAfterLabel_trim (sheet : Sheet) (text : Option String) (label entered : String) :
    sheet.textAfterLabel text label (Text.trim entered) =
      sheet.textAfterLabel text label entered := by
  simp only [textAfterLabel, textAfter, commit_trim]

end Sheet

namespace SavedSheet

variable {m : Type → Type} [Monad m]

/-- What a slot with this text opens as, on a medium to be saved to. -/
def ofText (settings : Settings) (rules : Rules) (medium : Medium m) (text : Option String) :
    SavedSheet m := ⟨settings, .ofText rules settings.slot text, some medium⟩

def loadNotices (settings : Settings) (rules : Rules) (text : Option String) : List Notice :=
  ((Sheet.blank rules).loaded settings.slot (.ok text)).2

variable {σ : Type} {settings : Settings} {rules : Rules} {medium : Medium (StateM σ)}
  {holds : σ → Option String → Prop}

theorem load_ofText {extent : Extent} {evaluate : Evaluator}
    (valid : settings.validate = .ok extent) (keeps : medium.Keeps settings.slot holds)
    (text : Option String) :
    let rules := rulesOf settings evaluate extent
    Yields holds (load settings evaluate (some medium)) text
      (.ok (ofText settings rules medium text, loadNotices settings rules text)) text := by
  intro rules
  simp only [load, ofSettings_valid valid]
  exact (keeps.read text).bind (.pure _)

theorem commit_ofText (keeps : medium.Keeps settings.slot holds) (text : Option String)
    (p : Position) (entered : String) :
    let text' := (Sheet.ofText rules settings.slot text).textAfter text p entered
    ∃ left, left.saved = ofText settings rules medium text' ∧
      Yields holds ((ofText settings rules medium text).commit p entered) text left text' := by
  intro text'
  by_cases inside : p ∈ (Sheet.ofText rules settings.slot text).extent
  · let after := (Sheet.ofText rules settings.slot text).commit p entered inside
    have written : text' = some (Slot.encode after.cells) := dif_pos inside
    have same : Sheet.ofText rules settings.slot text' = after := by
      have rules : after.rules = rules := Sheet.rules_ofText ..
      rw [written, ← rules]
      exact after.ofText_encode settings.slot
    let notices := (Sheet.ofText rules settings.slot text).commitNotices p entered
    refine ⟨⟨.ok after.cells, ⟨settings, after, some medium⟩, notices⟩, ?_, ?_⟩
    · rw [ofText, same]
    · rw [commit, ofText, dif_pos inside, written]
      exact (keeps.write text _).bind (.pure _)
  · have unwritten : text' = text := dif_neg inside
    refine ⟨⟨.error (.outside p), ofText settings rules medium text, []⟩, ?_, ?_⟩
    · rw [unwritten]
    · rw [commit, ofText, dif_neg inside, unwritten]
      exact .pure _

theorem commitLabel_ofText (keeps : medium.Keeps settings.slot holds) (text : Option String)
    (label entered : String) :
    let text' := (Sheet.ofText rules settings.slot text).textAfterLabel text label entered
    ∃ left, left.saved = ofText settings rules medium text' ∧
      Yields holds ((ofText settings rules medium text).commitLabel label entered) text left
        text' := by
  intro text'
  cases named : (Sheet.ofText rules settings.slot text).extent.cell? label with
  | some p =>
    have written : text' = (Sheet.ofText rules settings.slot text).textAfter text p entered := by
      simp only [text', Sheet.textAfterLabel, named, Option.elim_some]
    have found : (ofText settings rules medium text).extent.cell? label = some p := named
    rw [commitLabel, found, written]
    exact commit_ofText keeps text p entered
  | none =>
    have unwritten : text' = text := by
      simp only [text', Sheet.textAfterLabel, named, Option.elim_none]
    have unknown : (ofText settings rules medium text).extent.cell? label = none := named
    rw [commitLabel, unknown, unwritten]
    exact ⟨_, rfl, .pure _⟩

/-- What can be done with a document. Whatever is read of it, `look` gives. -/
inductive Act where
  | commit (p : Position) (text : String)
  | commitLabel (label text : String)
  | look
  | reopen
deriving DecidableEq

inductive Answer (m : Type → Type) where
  | committed (left : Committed m)
  | seen (saved : SavedSheet m)

def answered (left : Committed m) : Except Settings.Invalid (List (Answer m) × SavedSheet m) :=
  .ok ([.committed left], left.saved)

section

variable (settings : Settings) (evaluate : Evaluator) (medium : Medium m)

/-- What an act answers, and the document after it. A document is opened again as it was opened
first, and nothing of the one that is dropped is used. -/
def perform (saved : SavedSheet m) :
    Act → m (Except Settings.Invalid (List (Answer m) × SavedSheet m))
  | .commit p text => return answered (← saved.commit p text)
  | .commitLabel label text => return answered (← saved.commitLabel label text)
  | .look => return .ok ([.seen saved], saved)
  | .reopen => return (← load settings evaluate (some medium)).map fun opened => ([], opened.1)

/-- Performs acts up to one that fails, and collects their answers. -/
def performAll (saved : SavedSheet m) :
    List Act → m (Except Settings.Invalid (List (Answer m) × SavedSheet m))
  | [] => return .ok ([], saved)
  | act :: rest => do
    match ← perform settings evaluate medium saved act with
    | .error e => return .error e
    | .ok (answers, saved) =>
      return (← performAll saved rest).map fun later => (answers ++ later.1, later.2)

end

variable {extent : Extent} {evaluate : Evaluator}

/-- Every act leaves what the slot opens as; opening again answers nothing and changes nothing. -/
theorem perform_ofText (valid : settings.validate = .ok extent)
    (keeps : medium.Keeps settings.slot holds) (text : Option String) (act : Act) :
    let opens := ofText settings (rulesOf settings evaluate extent) medium
    ∃ answers text', (act = .reopen → answers = [] ∧ text' = text) ∧
      Yields holds (perform settings evaluate medium (opens text) act) text
        (.ok (answers, opens text')) text' := by
  intro opens
  have committed {action : StateM σ (Committed (StateM σ))} {left : Committed (StateM σ)}
      {text' : Option String} (saved : left.saved = opens text')
      (commits : Yields holds action text left text') :
      Yields holds (do return answered (← action)) text (.ok ([.committed left], opens text'))
        text' := by
    rw [← saved]
    exact commits.bind (.pure _)
  cases act with
  | commit p entered =>
    obtain ⟨left, saved, commits⟩ := commit_ofText keeps text p entered
    exact ⟨[.committed left], _, nofun, committed saved commits⟩
  | commitLabel label entered =>
    obtain ⟨left, saved, commits⟩ := commitLabel_ofText keeps text label entered
    exact ⟨[.committed left], _, nofun, committed saved commits⟩
  | look => exact ⟨[.seen (opens text)], text, nofun, .pure _⟩
  | reopen =>
    exact ⟨[], text, fun _ => ⟨rfl, rfl⟩, (load_ofText valid keeps text).bind (.pure _)⟩

/-- Leaving out the times a document is opened again changes neither what is answered nor the
document and the slot's text in the end. -/
theorem performAll_ofText (valid : settings.validate = .ok extent)
    (keeps : medium.Keeps settings.slot holds) (text : Option String) (acts : List Act) :
    let opens := ofText settings (rulesOf settings evaluate extent) medium
    let run := performAll settings evaluate medium (opens text)
    ∃ answers text', Yields holds (run acts) text (.ok (answers, opens text')) text' ∧
      Yields holds (run (acts.filter (· ≠ .reopen))) text (.ok (answers, opens text')) text' := by
  intro opens run
  -- In both runs the document is always what the slot opens as, so opening it again drops out.
  induction acts generalizing text with
  | nil => exact ⟨[], text, .pure _, .pure _⟩
  | cons act rest ih =>
    obtain ⟨answers, middle, silent, performs⟩ := perform_ofText valid keeps text act
    obtain ⟨later, text', reopening, staying⟩ := ih middle
    refine ⟨answers ++ later, text', performs.bind (reopening.bind (.pure _)), ?_⟩
    by_cases reopens : act = .reopen
    · obtain ⟨rfl, rfl⟩ := silent reopens
      rw [List.filter_cons_of_neg (by simp [reopens])]
      exact staying
    · rw [List.filter_cons_of_pos (by simp [reopens])]
      exact performs.bind (staying.bind (.pure _))

end SavedSheet

end Worksheet
