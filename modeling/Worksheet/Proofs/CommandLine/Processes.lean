import Worksheet.CommandLine.Program
import Worksheet.Proofs.Sheet.Reopening
import Worksheet.Proofs.Slot.Directory

/-! Runs of the program one after another. Each opens the sheet anew, so by what opening gives they
leave the same slot as one session that makes the same edits. -/
namespace Worksheet

namespace Sheet

/-- The text in the slot after edits by label, each to what the slot opens as by then. -/
def textAfterAll (rules : Rules) (slot : String) (text : Option String)
    (edits : List (String × String)) : Option String :=
  edits.foldl (fun text edit => (ofText rules slot text).textAfterLabel text edit.1 edit.2) text

theorem textAfterAll_append (rules : Rules) (slot : String) (text : Option String)
    (edits later : List (String × String)) : textAfterAll rules slot text (edits ++ later) =
      textAfterAll rules slot (textAfterAll rules slot text edits) later := List.foldl_append

theorem textAfterAll_congr {rules : Rules} {slot : String} {text : Option String}
    {edits edits' : List (String × String)}
    (same : edits.map (Prod.map id Text.trim) = edits'.map (Prod.map id Text.trim)) :
    textAfterAll rules slot text edits = textAfterAll rules slot text edits' := by
  have trimmed (edits : List (String × String)) :
      textAfterAll rules slot text (edits.map (Prod.map id Text.trim)) =
        textAfterAll rules slot text edits := by
    simp only [textAfterAll, List.foldl_map, Prod.map_fst, Prod.map_snd, id, textAfterLabel_trim]
  rw [← trimmed edits, same, trimmed]

end Sheet

variable {σ : Type} {settings : Settings} {rules : Rules} {medium : Medium (StateM σ)}
  {holds : σ → Option String → Prop}

namespace Session

def Request.edit? : Request → Option (String × String)
  | .commit label text => some (label, text)
  | _ => none

/-- The edits that lines ask for, up to the line that quits. -/
def edits (lines : List String) : List (String × String) :=
  ((lines.map request).takeWhile (· ≠ .quit)).filterMap Request.edit?

theorem edits_cons (line : String) (rest : List String) : edits (line :: rest) =
    if request line = .quit then [] else (request line).edit?.toList ++ edits rest := by
  by_cases quits : request line = .quit
  · simp [edits, quits]
  · cases edit : (request line).edit? <;> simp [edits, quits, edit]

theorem answer_ofText (keeps : medium.Keeps settings.slot holds) (text : Option String)
    (line : String) :
    let text' := Sheet.textAfterAll rules settings.slot text (request line).edit?.toList
    ∃ answered, answered.saved = .ofText settings rules medium text' ∧
      (answered.reply = .quit ↔ request line = .quit) ∧
      Yields holds (answer (.ofText settings rules medium text) line) text answered text' := by
  intro text'
  have unwritten (reads : (request line).edit? = none) : text' = text := by
    simp only [text', reads]
    rfl
  rw [answer]
  cases asked : request line with
  | nothing | quit | table =>
    rw [unwritten (by rw [asked]; rfl)]
    refine ⟨_, ?_, ?_, .pure _⟩ <;> simp
  | display label =>
    rw [unwritten (by rw [asked]; rfl)]
    refine ⟨_, ?_, ?_, .pure _⟩
    · rfl
    · simp only [displayReply, failure]
      split
      · simp
      · split <;> simp
  | commit label entered =>
    have written : text' =
        (Sheet.ofText rules settings.slot text).textAfterLabel text label entered := by
      simp only [text', asked]
      rfl
    obtain ⟨left, saved, commits⟩ :=
      @SavedSheet.commitLabel_ofText _ _ rules _ _ keeps text label entered
    rw [written]
    refine ⟨_, ?_, ?_, commits.bind (.pure _)⟩
    · exact saved
    · cases left.result <;> simp [commitReply, failure]

/-- A session leaves what its edits leave, and all that it answers is determined. -/
theorem run_ofText (keeps : medium.Keeps settings.slot holds) (text : Option String)
    (lines : List String) :
    ∃ transcript, Yields holds (run (.ofText settings rules medium text) lines) text transcript
      (Sheet.textAfterAll rules settings.slot text (edits lines)) := by
  induction lines generalizing text with
  | nil => exact ⟨_, .pure _⟩
  | cons line rest ih =>
    obtain ⟨⟨reply, saved, notices⟩, same, quits, answers⟩ :=
      @answer_ofText _ _ rules _ _ keeps text line
    obtain ⟨transcript, runs⟩ :=
      ih (Sheet.textAfterAll rules settings.slot text (request line).edit?.toList)
    rw [edits_cons]
    subst same
    -- The session and its edits end with the same line.
    cases reply with
    | quit =>
      have asked : request line = .quit := quits.mp rfl
      rw [if_pos asked]
      rw [asked] at answers
      exact ⟨_, answers.bind (.pure _)⟩
    | silent | line =>
      have more : request line ≠ .quit := fun asked => nomatch quits.mpr asked
      rw [if_neg more, Sheet.textAfterAll_append]
      exact ⟨_, answers.bind (runs.bind (.pure _))⟩

end Session

namespace CommandLine

open SavedSheet (rulesOf)

def Command.edits (input : List String) : Command → List (String × String)
  | .set label words => [(label, " ".intercalate words)]
  | .session => Session.edits input
  | .get _ _ | .table | .dump | .functions => []

def runEach {m : Type → Type} [Monad m] (files : FileSystem m) (places : Places) (o : Options) :
    List (Command × List String) → m (List Outcome)
  | [] => return []
  | (command, input) :: rest => do
    let outcome ← run files places o command input
    return outcome :: (← runEach files places o rest)

/-- The options name this medium, and with the settings file these settings. Reading that file
leaves the slot alone. -/
structure Names (files : FileSystem (StateM σ)) (places : Places) (o : Options)
    (chosen : Settings) (medium : Medium (StateM σ)) (holds : σ → Option String → Prop) : Prop where
  medium : medium? files places o = .ok (some medium)
  settings : ∀ text, ∃ given, o.override given = chosen ∧
    Yields holds (CommandLine.settings files places o) text (.ok given) text

variable {files : FileSystem (StateM σ)} {places : Places} {o : Options} {extent : Extent}

theorem openSheet_ofText (names : Names files places o settings medium holds)
    (valid : settings.validate = .ok extent) (keeps : medium.Keeps settings.slot holds)
    (text : Option String) :
    let rules := rulesOf settings evaluate extent
    Yields holds (openSheet files places o) text
      (.ok (.ofText settings rules medium text, SavedSheet.loadNotices settings rules text))
      text := by
  intro rules
  obtain ⟨given, rfl, reads⟩ := names.settings text
  refine reads.bind ?_
  simp only [names.medium]
  exact (SavedSheet.load_ofText valid keeps text).bind (.pure _)

theorem perform_ofText (keeps : medium.Keeps settings.slot holds) (text : Option String)
    (command : Command) (input : List String) :
    ∃ outcome, Yields holds (perform (.ofText settings rules medium text) input command) text
      outcome (Sheet.textAfterAll rules settings.slot text (command.edits input)) := by
  cases command with
  | set label words =>
    obtain ⟨left, _, commits⟩ :=
      @SavedSheet.commitLabel_ofText _ _ rules _ _ keeps text label (" ".intercalate words)
    exact ⟨_, commits.bind (.pure _)⟩
  | session =>
    obtain ⟨transcript, runs⟩ := @Session.run_ofText _ _ rules _ _ keeps text input
    exact ⟨_, runs.bind (.pure _)⟩
  | get | table | dump | functions => exact ⟨_, .pure _⟩

/-- A run leaves what its edits leave, and its outcome is determined. -/
theorem run_ofText (names : Names files places o settings medium holds)
    (valid : settings.validate = .ok extent) (keeps : medium.Keeps settings.slot holds)
    (text : Option String) (command : Command) (input : List String) :
    let rules := rulesOf settings evaluate extent
    ∃ outcome, Yields holds (run files places o command input) text outcome
      (Sheet.textAfterAll rules settings.slot text (command.edits input)) := by
  intro rules
  by_cases listing : command = .functions
  · subst listing
    exact ⟨_, .pure _⟩
  · obtain ⟨outcome, performs⟩ := @perform_ofText _ _ rules _ _ keeps text command input
    rw [run, if_neg listing]
    exact ⟨_, (openSheet_ofText names valid keeps text).bind (performs.bind (.pure _))⟩

theorem runEach_ofText (names : Names files places o settings medium holds)
    (valid : settings.validate = .ok extent) (keeps : medium.Keeps settings.slot holds)
    (text : Option String) (processes : List (Command × List String)) :
    let rules := rulesOf settings evaluate extent
    ∃ outcomes, Yields holds (runEach files places o processes) text outcomes
      (Sheet.textAfterAll rules settings.slot text (processes.flatMap fun p => p.1.edits p.2)) := by
  intro rules
  induction processes generalizing text with
  | nil => exact ⟨[], .pure _⟩
  | cons process rest ih =>
    obtain ⟨outcome, runs⟩ := run_ofText names valid keeps text process.1 process.2
    obtain ⟨outcomes, others⟩ := ih _
    rw [List.flatMap_cons, Sheet.textAfterAll_append]
    exact ⟨outcome :: outcomes, runs.bind (others.bind (.pure _))⟩

/-- Closing and opening again cannot be noticed. On a medium that keeps its slot, a document that is
opened again at any times answers every act as one that stays open, and both end with the same cells
and the same text in the slot. So do runs of the program and one session with the same edits: both
leave the same text in the slot, and it opens as the same sheet. -/
theorem reopening_invisible (valid : settings.validate = .ok extent)
    (keeps : medium.Keeps settings.slot holds) :
    (∀ (evaluate : Evaluator) (text : Option String), ∃ saved notices,
      Yields holds (SavedSheet.load settings evaluate (some medium)) text (.ok (saved, notices))
        text ∧
      ∀ acts : List SavedSheet.Act, let run := SavedSheet.performAll settings evaluate medium saved
        ∃ answers final text', Yields holds (run acts) text (.ok (answers, final)) text' ∧
          Yields holds (run (acts.filter (· ≠ .reopen))) text (.ok (answers, final)) text') ∧
    ∀ (files : FileSystem (StateM σ)) (places : Places) (o : Options),
      Names files places o settings medium holds →
      ∀ (text : Option String) (processes : List (Command × List String)) (lines : List String),
        (processes.flatMap fun p => p.1.edits p.2).map (Prod.map id Text.trim) =
          (Session.edits lines).map (Prod.map id Text.trim) →
        ∃ outcomes outcome text' opened,
          Yields holds (runEach files places o processes) text outcomes text' ∧
          Yields holds (run files places o .session lines) text outcome text' ∧
          Yields holds (openSheet files places o) text' (.ok opened) text' := by
  refine ⟨fun evaluate text => ?_, fun files places o names text processes lines same => ?_⟩
  · refine ⟨_, _, SavedSheet.load_ofText valid keeps text, fun acts => ?_⟩
    obtain ⟨answers, text', reopening, staying⟩ :=
      SavedSheet.performAll_ofText valid keeps text acts
    exact ⟨answers, _, text', reopening, staying⟩
  · obtain ⟨outcomes, separate⟩ := runEach_ofText names valid keeps text processes
    obtain ⟨outcome, together⟩ := run_ofText names valid keeps text .session lines
    rw [Sheet.textAfterAll_congr same] at separate
    exact ⟨outcomes, outcome, _, _, separate, together, openSheet_ofText names valid keeps _⟩

/-- The slot holds a grid from elsewhere: a pair for a cell, a cell outside the grid, and a key that
names no cell. The first act is refused, so that text is what is opened again first. -/
theorem reopening_invisible_directory :
    let o := { Options.empty with
      dataDirectory := some "/data", recalculation := some .dependency }
    let settings := o.override .default
    let extent : Extent := ⟨10, 10, by decide, by decide, by decide⟩
    let files := FileTree.system "/"
    let medium := Medium.directory files "/data"
    let holds := FileTree.Holds ["data"] "spreadsheet"
    let text := "\x7b\"0-0\":[\"=B1\",\"7\"],\"99-0\":[\"x\",\"x\"],\"A1\":[\"y\",\"y\"]\x7d"
    let tree : FileTree := ⟨.ofList [("/data/spreadsheet.json", text)], .ofList ["/data"]⟩
    let acts : List SavedSheet.Act := [.commit ⟨0, 10⟩ "1", .reopen, .look, .commit ⟨0, 1⟩ " 4 ",
      .reopen, .commitLabel "AA1" "5", .reopen, .look]
    let staying : List SavedSheet.Act := [.commit ⟨0, 10⟩ "1", .look, .commit ⟨0, 1⟩ " 4 ",
      .commitLabel "AA1" "5", .look]
    let processes : List (Command × List String) := [(.set "B1" ["4"], []), (.get "A1" false, []),
      (.set "A2" ["=B1", "+", "A1"], []), (.table, []), (.set "AA1" ["5"], [])]
    let lines := ["B1   4", "show", "", "A2 =B1 + A1 ", "AA1 5", "quit", "A1 1"]
    settings.validate = .ok extent ∧ medium.Keeps "spreadsheet" holds ∧ holds tree (some text) ∧
    (∃ saved notices answers final text',
      Yields holds (SavedSheet.load settings .ok (some medium)) (some text) (.ok (saved, notices))
        (some text) ∧
      Yields holds (SavedSheet.performAll settings .ok medium saved acts) (some text)
        (.ok (answers, final)) text' ∧
      Yields holds (SavedSheet.performAll settings .ok medium saved staying) (some text)
        (.ok (answers, final)) text') ∧
    ∃ outcomes outcome text' opened,
      Yields holds (runEach files ⟨none, none⟩ o processes) (some text) outcomes text' ∧
      Yields holds (run files ⟨none, none⟩ o .session lines) (some text) outcome text' ∧
      Yields holds (openSheet files ⟨none, none⟩ o) text' (.ok opened) text' := by
  intro o settings extent files medium holds text tree acts staying processes lines
  have valid : settings.validate = .ok extent := by decide +kernel
  have addresses : FileTree.Addresses ["data"] "spreadsheet" := by
    refine ⟨by decide, ?_, rfl, ?_, rfl, ?_, rfl⟩
    · simpa using (⟨by decide, by decide, by decide, by decide, by decide⟩ :
        FileTree.IsPlain "data")
    all_goals exact ⟨by decide, by decide, by decide, by decide, by decide⟩
  have keeps : medium.Keeps settings.slot holds := FileTree.directory_keeps addresses "/"
  have names : Names files ⟨none, none⟩ o settings medium holds :=
    ⟨rfl, fun text => ⟨.default, rfl, .pure _⟩⟩
  have held : holds tree (some text) :=
    ⟨by decide +kernel, by decide +kernel, by decide +kernel, by decide +kernel⟩
  obtain ⟨documents, programs⟩ := reopening_invisible valid keeps
  refine ⟨valid, keeps, held, ?_, ?_⟩
  · obtain ⟨saved, notices, loads, runs⟩ := documents .ok (some text)
    have without : acts.filter (· ≠ .reopen) = staying := by decide +kernel
    obtain ⟨answers, final, text', reopening, stays⟩ := runs acts
    rw [without] at stays
    exact ⟨saved, notices, answers, final, text', loads, reopening, stays⟩
  · exact programs files ⟨none, none⟩ o names (some text) processes lines (by decide +kernel)

end CommandLine

end Worksheet
