import Worksheet.Proofs.Sheet.Edit
import Worksheet.Session

/-! A session is the commits that its lines ask for. Each line in front of the one that quits prints
one record, an answer or an error; what a line asks to see changes nothing, and behind the line that
quits nothing counts. -/
namespace Worksheet.Session

section

variable {m : Type → Type}

def isBlank (line : String) : Bool := Text.trim line = ""

/-- The line ends a session. -/
def quits (line : String) : Bool := (words line).1 = "quit" ∨ (words line).1 = "exit"

/-- The lines that a session answers: those in front of the first that quits, but for blank ones. -/
def answered (lines : List String) : List String :=
  (lines.filter fun line => !isBlank line).takeWhile fun line => !quits line

/-- A line commits its rest to the cell that its first word names, unless it only looks. -/
def edit? (line : String) : Option Edit :=
  if (words line).1 = "get" ∨ (words line).1 = "show" then none
  else some (.label (words line).1 (words line).2)

/-- The answer of a line in a document, or the message of its error. A line that commits is answered
by the result of its commit. -/
def outcome (saved : SavedSheet m) (line : String) (result : Except CommitError Cells) :
    Except String String :=
  let (head, rest) := words line
  if head = "show" then .ok (table saved.extent saved.cells)
  else if head = "get" then
    if rest = "" then .error "Usage: get <LABEL>"
    else
      match saved.extent.cell? rest with
      | some p => .ok (saved.cells.display p)
      | none => .error (CommitError.unknownLabel rest).message
  else
    match result with
    | .ok cells => .ok (head ++ " = " ++ ((saved.extent.cell? head).map cells.display).getD "")
    | .error e => .error e.message

def record : Except String String → String
  | .ok answer => answer
  | .error message => "Error: " ++ message

end

theorem head_eq_empty (line : String) : (words line).1 = "" ↔ isBlank line := by
  have start : Text.trimStart (Text.trim line).toList = (Text.trim line).toList := by
    rw [Text.trim, String.toList_ofList]
    exact Text.trimStart_trimEnd (List.dropWhile_idempotent ..)
  rw [isBlank, decide_eq_true_iff, words, String.ofList_eq_empty_iff, ← String.toList_eq_nil_iff]
  cases spelled : (Text.trim line).toList with
  | nil => simp
  | cons c rest =>
    rw [spelled] at start
    have word : ¬Text.isBlank c := List.dropWhile_eq_self_iff.mp start (Nat.zero_lt_succ _)
    simp [word]

theorem request_blank {line : String} (blank : isBlank line) : request line = .nothing := by
  rw [← head_eq_empty] at blank
  rw [request]
  revert blank
  rcases words line with ⟨head, rest⟩
  rintro rfl
  rfl

theorem request_quits {line : String} (quit : quits line) : request line = .quit := by
  rw [quits, decide_eq_true_iff] at quit
  rw [request]
  revert quit
  rcases words line with ⟨head, rest⟩
  rintro (rfl | rfl) <;> rfl

/-- What a line that is answered asks for, by its first word. -/
theorem request_cases {line : String} (more : ¬isBlank line) (stays : ¬quits line) :
    (words line).1 = "show" ∧ request line = .table ∨
    (words line).1 = "get" ∧ request line = .display (words line).2 ∨
    (words line).1 ≠ "show" ∧ (words line).1 ≠ "get" ∧
      request line = .commit (words line).1 (words line).2 := by
  rw [← head_eq_empty] at more
  rw [quits] at stays
  rw [request]
  revert more stays
  rcases words line with ⟨head, rest⟩
  dsimp only
  split <;> simp_all

variable {σ : Type}

/-- A line that is answered prints one record and commits at most its rest. -/
theorem run_answer (saved : SavedSheet (StateM σ)) {line : String} (more : ¬isBlank line)
    (stays : ¬quits line) (world : σ) :
    let left := (saved.editAll (edit? line).toList).run world
    let result := ((saved.commitLabel (words line).1 (words line).2).run world).1.result
    ∃ notices, (answer saved line).run world =
      (⟨.line (record (outcome saved line result)), left.1, notices⟩, left.2) := by
  intro left result
  rcases request_cases more stays with
    ⟨head, asked⟩ | ⟨head, asked⟩ | ⟨notShow, notGet, asked⟩
  · refine ⟨[], ?_⟩
    simp only [answer, asked, left, edit?, head, outcome]
    rfl
  · have replied : displayReply saved.extent saved.cells (words line).2 =
        .line (record (outcome saved line result)) := by
      simp only [outcome, head, displayReply, failure]
      split
      · rfl
      · cases saved.extent.cell? (words line).2 <;> rfl
    refine ⟨[], ?_⟩
    simp only [answer, asked, left, edit?, head, replied]
    rfl
  · have made : edit? line = some (.label (words line).1 (words line).2) :=
      if_neg (not_or.mpr ⟨notGet, notShow⟩)
    have replied : commitReply saved.extent (words line).1 result =
        .line (record (outcome saved line result)) := by
      simp only [outcome, notShow, notGet, if_false]
      cases result <;> rfl
    rcases ran : (saved.commitLabel (words line).1 (words line).2).run world with ⟨left', world'⟩
    have committed : left = (left'.saved, world') := by
      have ran : (saved.edit (.label (words line).1 (words line).2)).run world =
        (left', world') := ran
      simp only [left, made, Option.toList_some]
      rw [SavedSheet.run_editAll_cons, ran]
      rfl
    refine ⟨left'.notices, ?_⟩
    rw [committed, ← replied, answer, asked]
    simp only [StateT.run_bind, ran, result]
    rfl

theorem answer_unchanged (saved : SavedSheet (StateM σ)) {line : String} (world : σ)
    (idle : isBlank line ∨ (words line).1 = "get" ∨ (words line).1 = "show" ∨
      saved.extent.cell? (words line).1 = none) :
    let left := (answer saved line).run world
    left.1.saved = saved ∧ left.2 = world := by
  by_cases blank : isBlank line
  · simp only [answer, request_blank blank]
    exact ⟨rfl, rfl⟩
  by_cases quit : quits line
  · simp only [answer, request_quits quit]
    exact ⟨rfl, rfl⟩
  rcases request_cases blank quit with ⟨_, asked⟩ | ⟨_, asked⟩ | ⟨notShow, notGet, asked⟩
  · simp only [answer, asked]
    exact ⟨rfl, rfl⟩
  · simp only [answer, asked]
    exact ⟨rfl, rfl⟩
  · have unknown : saved.extent.cell? (words line).1 = none := by
      simpa [blank, notShow, notGet] using idle
    simp only [answer, asked, SavedSheet.commitLabel, unknown]
    exact ⟨rfl, rfl⟩

theorem answered_cons (line : String) (rest : List String) : answered (line :: rest) =
    if isBlank line then answered rest else if quits line then [] else line :: answered rest := by
  simp only [answered]
  by_cases blank : isBlank line <;> by_cases quit : quits line <;> simp [blank, quit]

/-- The records of lines that are answered, each in the document that the lines before it leave. -/
def records (saved : SavedSheet (StateM σ)) (world : σ) : List String → List String
  | [] => []
  | line :: rest =>
    let left := (saved.editAll (edit? line).toList).run world
    let result := ((saved.commitLabel (words line).1 (words line).2).run world).1.result
    record (outcome saved line result) :: records left.1 left.2 rest

theorem length_records (saved : SavedSheet (StateM σ)) (world : σ) (lines : List String) :
    (records saved world lines).length = lines.length := by
  induction lines generalizing saved world with
  | nil => rfl
  | cons line rest ih => simp only [records, List.length_cons, ih]

theorem getElem?_records (saved : SavedSheet (StateM σ)) (world : σ) {lines : List String} {i : Nat}
    {line : String} (here : lines[i]? = some line) :
    let before := (saved.editAll ((lines.take i).filterMap edit?)).run world
    let result := ((before.1.commitLabel (words line).1 (words line).2).run before.2).1.result
    (records saved world lines)[i]? = some (record (outcome before.1 line result)) := by
  induction lines generalizing saved world i with
  | nil => simp at here
  | cons first rest ih =>
    cases i with
    | zero =>
      obtain rfl : first = line := by simpa using here
      have start : (saved.editAll []).run world = (saved, world) := rfl
      rw [List.take_zero, List.filterMap_nil, start, records, List.getElem?_cons_zero]
    | succ i =>
      have split : ((first :: rest).take (i + 1)).filterMap edit? =
          (edit? first).toList ++ (rest.take i).filterMap edit? := by
        rw [List.take_succ_cons, List.filterMap_cons]
        cases edit? first <;> rfl
      have later : rest[i]? = some line := by simpa using here
      rw [split, SavedSheet.run_editAll_append, records, List.getElem?_cons_succ]
      generalize (saved.editAll (edit? first).toList).run world = left
      exact ih left.1 left.2 later

theorem run_cons (saved : SavedSheet (StateM σ)) (line : String) (rest : List String) (world : σ) :
    let left := (answer saved line).run world
    let ran := (run left.1.saved rest).run left.2
    (run saved (line :: rest)).run world =
      match left.1.reply with
      | .quit => (⟨[], left.1.saved, left.1.notices⟩, left.2)
      | .silent => ({ ran.1 with notices := left.1.notices ++ ran.1.notices }, ran.2)
      | .line text =>
        ({ ran.1 with
            printed := text :: ran.1.printed
            notices := left.1.notices ++ ran.1.notices }, ran.2) := by
  intro left ran
  rw [run, StateT.run_bind]
  rcases answers : (answer saved line).run world with ⟨⟨reply, saved', notices⟩, world'⟩
  simp only [left, ran, answers]
  cases reply <;> rfl

/-- A session leaves what its commits leave, and prints one record for each line that it answers. -/
theorem run_answered (saved : SavedSheet (StateM σ)) (lines : List String) (world : σ) :
    let ran := (run saved lines).run world
    (ran.1.saved, ran.2) = (saved.editAll ((answered lines).filterMap edit?)).run world ∧
      ran.1.printed = records saved world (answered lines) := by
  induction lines generalizing saved world with
  | nil => exact ⟨rfl, rfl⟩
  | cons line rest ih =>
    intro ran
    have first : ran = _ := run_cons saved line rest world
    rw [first, answered_cons]
    by_cases blank : isBlank line
    · rw [answer, request_blank blank, if_pos blank]
      exact ih saved world
    by_cases quit : quits line
    · rw [answer, request_quits quit, if_neg blank, if_pos quit]
      exact ⟨rfl, rfl⟩
    obtain ⟨notices, answers⟩ := run_answer saved blank quit world
    rw [if_neg blank, if_neg quit, answers]
    have split : (line :: answered rest).filterMap edit? =
        (edit? line).toList ++ (answered rest).filterMap edit? := by
      rw [List.filterMap_cons]
      cases edit? line <;> rfl
    rw [split, SavedSheet.run_editAll_append, records]
    generalize (saved.editAll (edit? line).toList).run world = left
    obtain ⟨same, printed⟩ := ih left.1 left.2
    exact ⟨same, congrArg _ printed⟩

/-- What stands behind a line that quits is never read. -/
theorem run_quits (saved : SavedSheet (StateM σ)) (front : List String) {line : String}
    (quit : quits line) (back : List String) (world : σ) :
    (run saved (front ++ line :: back)).run world = (run saved front).run world := by
  induction front generalizing saved world with
  | nil =>
    rw [List.nil_append, run_cons, answer, request_quits quit]
    rfl
  | cons first rest ih => rw [List.cons_append, run_cons, run_cons, ih]

/-- A session is exactly a sequence of commits. Whatever its medium answers, the document and the
world are left as by the commits of its lines, one after another, up to the line that quits. Every
line so far that is not blank prints one record, its answer or its error in the document that it
finds; lines that only look, or name no cell, change nothing; and what follows the line that quits
could as well not be there. -/
theorem session_exact (saved : SavedSheet (StateM σ)) (input : String) (world : σ) :
    let spoken := answered (lines input)
    let ran := (run saved (lines input)).run world
    (ran.1.saved, ran.2) = (saved.editAll (spoken.filterMap edit?)).run world ∧
    ran.1.printed.length = spoken.length ∧
    (∀ i line, spoken[i]? = some line →
      let before := (saved.editAll ((spoken.take i).filterMap edit?)).run world
      let result := ((before.1.commitLabel (words line).1 (words line).2).run before.2).1.result
      ran.1.printed[i]? = some (record (outcome before.1 line result))) ∧
    (∀ (saved : SavedSheet (StateM σ)) (line : String) (world : σ),
      (isBlank line ∨ (words line).1 = "get" ∨ (words line).1 = "show" ∨
        saved.extent.cell? (words line).1 = none) →
      let left := (answer saved line).run world
      left.1.saved = saved ∧ left.2 = world) ∧
    ∀ front line back, lines input = front ++ line :: back → quits line →
      ran = (run saved front).run world := by
  intro spoken ran
  obtain ⟨left, printed⟩ := run_answered saved (lines input) world
  have printed : ran.1.printed = records saved world spoken := printed
  refine ⟨left, ?_, fun i line here => ?_, fun saved line world => answer_unchanged saved world,
    fun front line back split quit => ?_⟩
  · rw [printed, length_records]
  · rw [printed]
    exact getElem?_records saved world here
  · simp only [ran, split]
    exact run_quits saved front quit back world

/-- The medium refuses every write, which is answered by an error although the edit stays. -/
theorem session_exact_unsaved :
    let extent : Extent := ⟨10, 10, by decide, by decide, by decide⟩
    let sheet := Sheet.blank ⟨extent, .linear, .zero, .ok⟩
    let saved : SavedSheet (StateM Unit) := ⟨.default, sheet, some .readOnly⟩
    let input := "A1 5\n\n\tget  A1 \nAA1 1\n B1 =A1+1\r\nget\nget B1\nquit now\nC1 9\n"
    let ran := (run saved (lines input)).run ()
    quits "quit now" ∧ answered (lines input) =
      ["A1 5", "\tget  A1 ", "AA1 1", " B1 =A1+1\r", "get", "get B1"] ∧
    ran.1.printed.length = 6 ∧ ran.1.printed[3]? = some "Error: IO error: read-only" ∧
    ran.1.printed[4]? = some "Error: Usage: get <LABEL>" ∧ ran.1.printed[5]? = some "5+1" ∧
    ran.1.saved = ((saved.editAll [.label "A1" "5", .label "AA1" "1", .label "B1" "=A1+1"]).run
      ()).1 ∧
    ran = (run saved ((lines input).take 7)).run () := by
  intro extent sheet saved input ran
  have quit : quits "quit now" := by decide +kernel
  have spoken : answered (lines input) =
      ["A1 5", "\tget  A1 ", "AA1 1", " B1 =A1+1\r", "get", "get B1"] := by decide +kernel
  obtain ⟨left, length, printed, _, behind⟩ := session_exact saved input ()
  rw [spoken] at left length printed
  have refused := printed 3 " B1 =A1+1\r" rfl
  have usage := printed 4 "get" rfl
  have shown := printed 5 "get B1" rfl
  refine ⟨quit, spoken, length, refused.trans (by decide +kernel), usage.trans (by decide +kernel),
    shown.trans (by decide +kernel), congrArg Prod.fst left, ?_⟩
  exact behind _ "quit now" ["C1 9", ""] (by decide +kernel) quit

end Worksheet.Session
