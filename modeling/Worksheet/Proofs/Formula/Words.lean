import Worksheet.Proofs.Formula.Pieces
import Worksheet.Proofs.Formula.StringLiteral

/-! The words of an expression, which are its names and its string literals. Nothing else has a part
in where words begin and end, so that what is put in the place of a reference leaves all other words
alone, as long as it begins none of its own. -/
namespace Worksheet.Formula

/-- No name and no string literal begins in the text: it has no ASCII letter, no underscore and no
quote. -/
def Wordless (cs : List Char) : Prop := ∀ c ∈ cs, ¬isNameStart c ∧ c ≠ '"'

instance (cs : List Char) : Decidable (Wordless cs) :=
  List.decidableBAll (fun c => ¬isNameStart c ∧ c ≠ '"') cs

namespace Run

variable {cs rest filled : List Char} {front back : List Run} {run : Run}

def isWord : Run → Bool
  | quoted _ => true
  | name _ => true
  | _ => false

/-- The names and string literals of a text in order. -/
def words (cs : List Char) : List Run := (scan cs).filter isWord

theorem Reads.words_eq (h : Reads cs run rest) :
    words cs = [run].filter isWord ++ words rest := by
  rw [words, h.scan_eq, ← List.singleton_append, List.filter_append, words]

theorem words_dropWhile (cs : List Char) : words (cs.dropWhile isNumberChar) = words cs := by
  induction cs with
  | nil => rfl
  | cons c rest ih =>
    by_cases number : isNumberChar c
    · rw [List.dropWhile_cons_of_pos number]
      by_cases digit : c.isDigit
      · exact (Reads.digits rest digit).words_eq.symm
      · have start := not_isNameStart_of_isNumberChar number
        rw [ih, (Reads.other rest (ne_quote_of_isNumberChar number) digit start).words_eq]
        rfl
    · rw [List.dropWhile_cons_of_neg number]

theorem words_cons {c : Char} (start : ¬isNameStart c) (quote : c ≠ '"') (rest : List Char) :
    words (c :: rest) = words rest := by
  by_cases digit : c.isDigit
  · rw [(Reads.digits rest digit).words_eq, words_dropWhile]
    rfl
  · exact (Reads.other rest quote digit start).words_eq

theorem words_append {front : List Char} (wordless : Wordless front) (rest : List Char) :
    words (front ++ rest) = words rest := by
  induction front with
  | nil => rfl
  | cons c front ih =>
    obtain ⟨⟨start, quote⟩, wordless⟩ := List.forall_mem_cons.mp wordless
    rw [List.cons_append, words_cons start quote, ih wordless]

/-- A run gives the same words in front of another text, if a literal has been closed and a name
does not go on there. -/
theorem Reads.words_refill (h : Reads cs run rest) (ends : rest = [] → filled = [])
    (apart : ∀ name, run = .name name → ∀ c ∈ filled.head?, isNameChar c = false) :
    words (run.text ++ filled) = [run].filter isWord ++ words filled := by
  cases h with
  | quoted rest =>
    have closes : Closes (Formula.quoted rest).1 filled := by
      have closes := closes_quoted rest
      by_cases none : (Formula.quoted rest).2 = []
      · rwa [none, ← ends none] at closes
      · exact closes.other none filled
    have reads := Reads.quoted ((Formula.quoted rest).1 ++ filled)
    rw [closes.quoted_eq] at reads
    exact reads.words_eq
  | digits rest digit =>
    -- The number may go on in the other text, and then the run is another one.
    refine words_append (fun c member => ?_) filled
    have number := (Reads.digits rest digit).digits_all c member
    exact ⟨not_isNameStart_of_isNumberChar number, ne_quote_of_isNumberChar number⟩
  | name rest start =>
    have reads := Reads.name (rest.takeWhile isNameChar ++ filled) start
    obtain ⟨taken, left⟩ := run_unique List.takeWhile_append_dropWhile
      (fun _ => List.mem_takeWhile_imp) (fun _ => List.mem_takeWhile_imp) (fun _ => head_dropWhile)
      (apart _ rfl)
    rw [taken, left] at reads
    exact reads.words_eq
  | other rest quote _ start => exact words_cons start quote filled

/-- The text of some runs with a wordless answer in the place of each reference. -/
inductive Filled : List Run → List Char → Prop where
  | nil : Filled [] []
  | keep {run : Run} {runs : List Run} {filled : List Char} : ¬run.isReference →
      Filled runs filled → Filled (run :: runs) (run.text ++ filled)
  | answer {run : Run} {runs : List Run} {answer filled : List Char} : run.isReference →
      Wordless answer → Filled runs filled → Filled (run :: runs) (answer ++ filled)

theorem Filled.ends (h : Filled back filled) (whole : scan cs = front ++ back)
    (none : back.flatMap text = []) : filled = [] := by
  have following := scan_suffix whole
  rw [none, scan] at following
  subst following
  cases h
  rfl

theorem Filled.apart {name : List Char} (h : Filled back filled)
    (whole : scan cs = front ++ .name name :: back) :
    ∀ c ∈ filled.head?, isNameChar c = false := by
  have stop := (scan_at whole).name_maximal.2.2
  cases h with
  | nil => simp
  | @keep run runs filled =>
    have member : run ∈ scan cs := by simp [whole]
    simpa [text_ne_nil member] using stop
  | @answer run _ _ _ reference =>
    -- A reference is a name, and no name stands next to another.
    obtain ⟨letters, digits, rfl, _⟩ := isReference_iff.mp reference
    exact absurd rfl (scan_name_apart whole _)

/-- All words but the references are left where the references are filled. -/
theorem Filled.words_eq (h : Filled back filled) (whole : scan cs = front ++ back) :
    words filled = (back.filter (!·.isReference)).filter isWord := by
  induction h generalizing front with
  | nil => simp [words, scan]
  | @keep run runs filled other fills ih =>
    have behind : scan cs = (front ++ [run]) ++ runs := by simp [whole]
    have apart (name : List Char) (same : run = .name name) :
        ∀ c ∈ filled.head?, isNameChar c = false := fills.apart (same ▸ whole)
    have kept : (run :: runs).filter (!·.isReference) = [run] ++ runs.filter (!·.isReference) :=
      List.filter_cons_of_pos (by simp [other])
    rw [(scan_at whole).words_refill (fills.ends behind) apart, ih behind, kept,
      List.filter_append]
  | @answer run runs answer filled reference wordless fills ih =>
    have behind : scan cs = (front ++ [run]) ++ runs := by simp [whole]
    have gone : (run :: runs).filter (!·.isReference) = runs.filter (!·.isReference) :=
      List.filter_cons_of_neg (by simp [reference])
    rw [words_append wordless, ih behind, gone]

def literal? : Run → Option (List Char)
  | quoted text => some text
  | _ => none

theorem filterMap_literal_scan (cs : List Char) :
    (scan cs).filterMap literal? = stringLiterals cs := by
  induction runs : scan cs generalizing cs with
  | nil =>
    obtain rfl : cs = [] := by rw [← flatMap_text_scan cs, runs, List.flatMap_nil]
    rw [stringLiterals_nil, List.filterMap_nil]
  | cons run back ih =>
    obtain ⟨rest, reads, following⟩ := scan_reads runs
    have later := ih rest following
    rcases reads.plain with ⟨literal, rfl⟩ | plain
    · cases reads with
      | quoted rest => rw [stringLiterals_quote, ← later, List.filterMap_cons, literal?]
    · have skipped := stringLiterals_append plain rest
      rw [reads.append] at skipped
      rw [skipped, ← later]
      cases run with
      | quoted text =>
        cases reads
        exact absurd List.mem_cons_self plain
      | _ => rfl

theorem filter_isReference_words (cs : List Char) :
    (words cs).filter isReference = (scan cs).filter isReference := by
  rw [words, List.filter_filter]
  refine List.filter_congr fun run _ => ?_
  cases run with
  | name text => simp [isWord]
  | _ => rfl

theorem filterMap_literal_filter {keeps : Run → Bool} (literals : ∀ text, keeps (.quoted text))
    (runs : List Run) : (runs.filter keeps).filterMap literal? = runs.filterMap literal? := by
  rw [List.filterMap_filter]
  congr 1
  funext run
  cases run with
  | quoted text => rw [if_pos (literals text)]
  | _ => simp [literal?]

theorem filterMap_literal_words (cs : List Char) :
    (words cs).filterMap literal? = stringLiterals cs := by
  rw [words, filterMap_literal_filter fun _ => rfl, filterMap_literal_scan]

end Run

namespace Piece

theorem filled_answered {runs : List Run} {start : Nat} {answers : List String}
    (each : answers.length = (runs.filter Run.isReference).length)
    (wordless : ∀ answer ∈ answers, Wordless answer.toList) :
    Run.Filled runs (String.join (answered (assemble start runs) answers)).toList := by
  induction runs generalizing start answers with
  | nil => simpa [assemble, answered] using .nil
  | cons run runs ih =>
    rw [assemble]
    split_ifs with reference
    · have some : 0 < answers.length := by simp [each, reference]
      obtain ⟨answer, answers, rfl⟩ := List.exists_cons_of_length_pos some
      obtain ⟨here, wordless⟩ := List.forall_mem_cons.mp wordless
      have later : Run.Filled runs
          (String.join (answered (assemble (start + utf8Size run.text) runs) answers)).toList :=
        ih (by simpa [reference] using each) wordless
      simpa [answered] using Run.Filled.answer reference here later
    · rw [join_answered_prepend]
      exact .keep reference (ih (by simpa [reference] using each) wordless)

end Piece

section Lookup

variable {σ : Type} {expression : String} {answers : List String}

theorem words_answered (each : answers.length = (references expression).length)
    (wordless : ∀ answer ∈ answers, Wordless answer.toList) :
    Run.words (String.join (Piece.answered (pieces expression) answers)).toList =
      ((Run.scan expression.toList).filter (!·.isReference)).filter Run.isWord := by
  rw [references_eq, List.length_map] at each
  exact (Piece.filled_answered each wordless).words_eq (List.nil_append _).symm

theorem length_mapM (value : String → StateM σ String) (labels : List String) (state : σ) :
    ((labels.mapM value).run state).1.length = labels.length := by
  induction labels generalizing state with
  | nil => rfl
  | cons label labels ih =>
    rw [List.mapM_cons]
    exact congrArg (· + 1) (ih ((value label).run state).2)

/-- Filling an expression once is enough. Where the answers that it gets are wordless, the text has
no reference left, and its string literals are those of the expression, also as they are read for
evaluation. -/
theorem substitute_complete (value : String → StateM σ String) (state : σ) (expression : String)
    (wordless : ∀ answer ∈ (((references expression).mapM value).run state).1,
      Wordless answer.toList) :
    let filled := ((substituteM value expression).run state).1
    references filled = [] ∧
    stringLiterals filled.toList = stringLiterals expression.toList ∧
    (Lexeme.scan filled.toList).filterMap Lexeme.literal? =
      (Lexeme.scan expression.toList).filterMap Lexeme.literal? := by
  intro filled
  have words : Run.words filled.toList =
      ((Run.scan expression.toList).filter (!·.isReference)).filter Run.isWord := by
    simp only [filled, substituteM_eq, StateT.run_map]
    exact words_answered (length_mapM value _ state) wordless
  have literals : stringLiterals filled.toList = stringLiterals expression.toList := by
    rw [← Run.filterMap_literal_words, words, Run.filterMap_literal_filter fun _ => rfl,
      Run.filterMap_literal_filter fun _ => rfl, Run.filterMap_literal_scan]
  refine ⟨?_, literals, ?_⟩
  · have none : (Run.words filled.toList).filter Run.isReference = [] := by
      rw [words, List.filter_eq_nil_iff]
      intro run member reference
      simp [reference] at member
    rw [references_eq, ← Run.filter_isReference_words, none, List.map_nil]
  · rw [Lexeme.filterMap_literal_scan, Lexeme.filterMap_literal_scan, literals]

end Lookup

/-- An empty answer joins the numbers on both of its sides. A name that has the shape of a reference
is filled even in front of a bracket. -/
theorem substitute_complete_joined :
    let ask (_ : String) : StateM Nat String := fun asked =>
      (if asked = 0 then "" else "-0.5", asked + 1)
    let filled := ((substituteM ask "2A1.5&LOG10(\"B2 \\\"C3\")-x_1+B2").run 0).1
    (∀ answer ∈ (((references "2A1.5&LOG10(\"B2 \\\"C3\")-x_1+B2").mapM ask).run 0).1,
      Wordless answer.toList) ∧
      filled = "2.5&-0.5(\"B2 \\\"C3\")-x_1+-0.5" ∧ references filled = [] ∧
      stringLiterals filled.toList = ["\"B2 \\\"C3\"".toList] := by
  intro ask filled
  have wordless : ∀ answer ∈
      (((references "2A1.5&LOG10(\"B2 \\\"C3\")-x_1+B2").mapM ask).run 0).1,
      Wordless answer.toList := by decide +kernel
  obtain ⟨gone, literals, _⟩ := substitute_complete ask 0 _ wordless
  exact ⟨wordless, by decide +kernel, gone, literals.trans (by decide +kernel)⟩

end Worksheet.Formula
