import Mathlib.Data.List.DropRight
import Worksheet.Proofs.Formula.Reference
import Worksheet.Proofs.Formula.StringLiteral

/-! Where references stand. Whether some characters of an expression are a reference is decided by
the characters themselves, the one behind them, the one in front of the digits that may stand before
them, and the string literals. -/
namespace Worksheet.Formula

/-- No name goes on into what follows, not even over digits. -/
def EndsNoName (before : List Char) : Prop :=
  ∀ shorter c digits, before = shorter ++ c :: digits → (∀ d ∈ digits, d.isDigit) → ¬isNameStart c

namespace EndsNoName

variable {front text : List Char} {c : Char}

theorem nil : EndsNoName [] := by
  intro shorter c digits whole
  simp at whole

theorem concat (text : List Char) (digit : ¬c.isDigit) (start : ¬isNameStart c) :
    EndsNoName (text ++ [c]) := by
  intro shorter d digits whole all
  rcases List.eq_nil_or_concat digits with rfl | ⟨more, last, rfl⟩
  · obtain rfl := List.singleton_inj.mp (List.append_inj' whole rfl).2
    exact start
  · rw [List.concat_eq_append, ← List.cons_append, ← List.append_assoc] at whole
    obtain rfl := List.singleton_inj.mp (List.append_inj' whole rfl).2
    exact absurd (all c (by simp)) digit

theorem append (inner : EndsNoName text) (outer : (∀ d ∈ text, d.isDigit) → EndsNoName front) :
    EndsNoName (front ++ text) := by
  intro shorter c digits whole all
  rcases List.append_eq_append_iff.mp whole with ⟨between, rfl, same⟩ |
    ⟨_ | ⟨d, between⟩, rfl, same⟩
  · exact inner between c digits same all
  · exact inner [] c digits same.symm all
  · obtain ⟨rfl, rfl⟩ := List.cons.inj same
    have digit : ∀ d ∈ text, d.isDigit := fun d member => all d (List.mem_append_right _ member)
    exact outer digit shorter c between rfl fun d member => all d (List.mem_append_left _ member)

theorem digits (h : EndsNoName (front ++ text)) (name : ∀ c ∈ text, isNameChar c) :
    ∀ c ∈ text, c.isDigit := by
  induction text using List.reverseRecOn with
  | nil => simp
  | append_singleton text last ih =>
    have digit : last.isDigit := by
      refine (isNameChar_iff.mp (name last (by simp))).resolve_left ?_
      exact h (front ++ text) last [] (by simp) (by simp)
    have shorter : EndsNoName (front ++ text) := by
      intro shorter c digits whole all
      refine h shorter c (digits ++ [last]) ?_ (by simpa [or_imp, forall_and, digit] using all)
      rw [← List.append_assoc, whole, List.append_assoc, List.cons_append]
    intro c member
    rcases List.mem_append.mp member with earlier | final
    · exact ih shorter (fun c member => name c (List.mem_append_left _ member)) c earlier
    · exact List.mem_singleton.mp final ▸ digit

/-- It is the character in front of the digits that decides. -/
theorem iff_getLast? : EndsNoName text ↔
    ∀ c ∈ (text.rdropWhile Char.isDigit).getLast?, ¬isNameStart c := by
  have split : text.rdropWhile Char.isDigit ++ text.rtakeWhile Char.isDigit = text :=
    List.rdropWhile_append_rtakeWhile
  have digit : ∀ d ∈ text.rtakeWhile Char.isDigit, d.isDigit := fun _ => List.mem_rtakeWhile_imp
  constructor
  · intro ends c last
    obtain ⟨shorter, same⟩ := List.getLast?_eq_some_iff.mp last
    rw [same, List.append_assoc, List.singleton_append] at split
    exact ends shorter c _ split.symm digit
  · intro last
    rw [← split]
    apply append
    · intro shorter c digits whole _
      exact not_isNameStart_of_isDigit (digit c (by simp [whole]))
    · intro _
      rcases List.eq_nil_or_concat (text.rdropWhile Char.isDigit) with none | ⟨shorter, c, same⟩
      · exact none ▸ nil
      · have stop := List.rdropWhile_last_not Char.isDigit text
        simp only [same, List.concat_eq_append] at last stop ⊢
        exact concat shorter (by simpa using stop) (last c (by simp))

end EndsNoName

variable {cs rest : List Char} {front back : List Run} {run : Run}

namespace Run

theorem Reads.rest_outside (h : Reads cs run rest) : Outside cs rest := by
  rcases h.plain with ⟨literal, rfl⟩ | plain
  · cases h
    exact .literal (.here _)
  · exact h.append ▸ .append plain rest

theorem scan_outside (runs : scan cs = front ++ back) : Outside cs (back.flatMap text) := by
  induction front generalizing cs with
  | nil =>
    obtain rfl : back.flatMap text = cs := by
      rw [show back = scan cs from runs.symm, flatMap_text_scan]
    exact .here _
  | cons run front ih =>
    obtain ⟨rest, reads, following⟩ := scan_reads runs
    exact reads.rest_outside.trans (ih following)

theorem Reads.endsNoName {c : Char} (h : Reads cs run rest) (first : c ∈ rest.head?)
    (name : isNameChar c) : EndsNoName run.text := by
  cases h with
  | quoted rest =>
    have more : (Formula.quoted rest).2 ≠ [] := by
      intro none
      simp [none] at first
    obtain ⟨body, closed⟩ := quoted_closed more
    rw [text, closed, ← List.cons_append]
    exact .concat _ (by decide) (by decide)
  | digits rest digit =>
    intro shorter d digits whole _
    have member : d ∈ shorter ++ d :: digits := by simp
    rw [← whole] at member
    exact not_isNameStart_of_isNumberChar ((Reads.digits rest digit).digits_all d member)
  | name rest start => exact absurd name (by simp [head_dropWhile first])
  | other rest quote digit start => exact .concat [] digit start

/-- No name goes on into a place where the next run begins with a name character. -/
theorem scan_endsNoName {c : Char} (runs : scan cs = front ++ back)
    (first : c ∈ (back.flatMap text).head?) (name : isNameChar c) :
    EndsNoName (front.flatMap text) := by
  induction front using List.reverseRecOn generalizing back c with
  | nil => exact .nil
  | append_singleton front run ih =>
    rw [List.append_assoc, List.singleton_append] at runs
    have reads := scan_at runs
    rw [List.flatMap_append, List.flatMap_singleton]
    refine (reads.endsNoName first name).append fun digits => ?_
    obtain ⟨d, more, text⟩ := List.exists_cons_of_ne_nil reads.text_ne_nil
    have digit : d.isDigit := digits d (by simp [text])
    exact ih runs (by simp [text]) (isNameChar_iff.mpr (.inr digit))

end Run

/-- Characters of a text that stand as a reference does: capital letters and then digits, in front
of no name character, behind no name, and outside the string literals. -/
structure Stands (before label after : List Char) : Prop where
  shape : ∃ letters digits, label = letters ++ digits ∧ letters ≠ [] ∧ (∀ c ∈ letters, c.isUpper) ∧
    digits ≠ [] ∧ ∀ d ∈ digits, d.isDigit
  behind : ∀ c ∈ after.head?, ¬isNameChar c
  front : ∀ c ∈ (before.rdropWhile Char.isDigit).getLast?, ¬isNameStart c
  apart : ∀ front literal, StringLiteral (before ++ (label ++ after)) front literal →
    before.length < front.length ∨ front.length + literal.length ≤ before.length

namespace Stands

variable {before label after : List Char}

theorem first (h : Stands before label after) :
    ∃ c more, label = c :: more ∧ c.isUpper ∧ ∀ d ∈ more, isNameChar d := by
  obtain ⟨letters, digits, rfl, filled, upper, _, digit⟩ := h.shape
  obtain ⟨c, letters, rfl⟩ := List.exists_cons_of_ne_nil filled
  obtain ⟨capital, upper⟩ := List.forall_mem_cons.mp upper
  refine ⟨c, letters ++ digits, rfl, capital, fun d member => ?_⟩
  rcases List.mem_append.mp member with letter | number
  · exact isNameChar_iff.mpr (.inl (isNameStart_of_isUpper (upper d letter)))
  · exact isNameChar_iff.mpr (.inr (digit d number))

theorem of_run (runs : Run.scan cs = front ++ run :: back) (reference : run.isReference) :
    Stands (front.flatMap Run.text) run.text (back.flatMap Run.text) := by
  obtain ⟨letters, digits, same, filled, upper, filled', digit⟩ := Run.isReference_iff.mp reference
  have reads := Run.scan_at runs
  obtain ⟨c, letters, rfl⟩ := List.exists_cons_of_ne_nil filled
  have start : isNameStart c := isNameStart_of_isUpper (upper c List.mem_cons_self)
  have outside := Run.scan_outside runs
  have whole := Run.scan_whole runs
  subst same
  obtain ⟨_, _, stop⟩ := reads.name_maximal
  refine ⟨⟨c :: letters, digits, rfl, filled, upper, filled', digit⟩, ?_, ?_, ?_⟩
  · exact fun d member => Bool.eq_false_iff.mp (stop d member)
  · exact EndsNoName.iff_getLast?.mp
      (Run.scan_endsNoName runs (c := c) (by simp [Run.text]) (isNameChar_iff.mpr (.inl start)))
  · have place := outside
    rw [← whole] at place
    have other := ne_quote_of_isNameStart start
    simp only [List.flatMap_cons, Run.text, List.cons_append] at place ⊢
    exact (outside_iff other).mp place

theorem exists_run (h : Stands before label after) : ∃ front back,
    Run.scan (before ++ (label ++ after)) = front ++ .name label :: back ∧
      before = front.flatMap Run.text := by
  obtain ⟨c, more, rfl, upper, chars⟩ := h.first
  have start := isNameStart_of_isUpper upper
  have other := ne_quote_of_isNameStart start
  have apart := h.apart
  rw [List.cons_append] at apart ⊢
  obtain ⟨front, back, left, right, runs, rest⟩ :=
    Run.scan_covers_name ((outside_iff other).mpr apart) start
  obtain ⟨⟨first, _, head, begins⟩, name, stop⟩ := (Run.scan_at runs).name_maximal
  obtain ⟨rfl, rfl⟩ := run_unique rest chars (fun d member => name d (by simp [member]))
    (fun d member => Bool.eq_false_iff.mpr (h.behind d member)) stop
  have whole := Run.scan_whole runs
  rw [Run.text, List.append_assoc, ← List.append_assoc, List.cons_append] at whole
  obtain rfl := List.append_cancel_right whole
  -- The name begins here: otherwise it would go on from what stands before.
  have none : left = [] := by
    by_contra more
    obtain ⟨d, left, rfl⟩ := List.exists_cons_of_ne_nil more
    obtain rfl : d = first := (List.cons.inj head).1
    have digits := (EndsNoName.iff_getLast?.mpr h.front).digits
      fun d member => name d (List.mem_append_left _ member)
    exact not_isNameStart_of_isDigit (digits d List.mem_cons_self) begins
  subst none
  exact ⟨front, back, by simpa using runs, by simp⟩

theorem iff_run : Stands before label after ↔ ∃ front run back,
    Run.scan (before ++ (label ++ after)) = front ++ run :: back ∧ run.isReference ∧
      label = run.text ∧ before = front.flatMap Run.text := by
  constructor
  · intro h
    obtain ⟨front, back, runs, rfl⟩ := h.exists_run
    obtain ⟨letters, digits, rfl, shape⟩ := h.shape
    exact ⟨front, _, back, runs, Run.isReference_iff.mpr ⟨letters, digits, rfl, shape⟩, rfl, rfl⟩
  · rintro ⟨front, run, back, runs, reference, rfl, rfl⟩
    have behind : after = back.flatMap Run.text := by
      have whole := Run.scan_whole runs
      exact (List.append_cancel_left (List.append_cancel_left whole)).symm
    exact behind ▸ of_run runs reference

end Stands

/-- References are told by where characters stand. The string literals that they must be outside of
are exactly the lexemes that begin with a quote, which the normal form has as they were entered. -/
theorem references_exact (expression : String) :
    (∀ label offset, .reference label offset ∈ pieces expression ↔ ∃ before after,
      expression.toList = before ++ (label ++ after) ∧ offset = Piece.utf8Size before ∧
        Stands before label after) ∧
    (∀ front literal, StringLiteral expression.toList front literal ↔
      Lexeme.QuotedAt (Lexeme.parts expression.toList) front literal) ∧
    normalize expression = .ofList ([' '].intercalate
      (((Lexeme.parts expression.toList).filterMap Lexeme.Part.lexeme?).map Lexeme.text)) := by
  refine ⟨fun label offset => ?_, fun front literal => Lexeme.quotedAt_parts.symm, ?_⟩
  · rw [pieces, Piece.reference_mem_assemble]
    constructor
    · rintro ⟨front, run, back, runs, reference, rfl, rfl⟩
      exact ⟨_, _, (Run.scan_whole runs).symm, Nat.zero_add _, .of_run runs reference⟩
    · rintro ⟨before, after, whole, rfl, stands⟩
      obtain ⟨front, run, back, runs, reference, rfl, rfl⟩ := Stands.iff_run.mp stands
      exact ⟨front, run, back, whole ▸ runs, reference, rfl, (Nat.zero_add _).symm⟩
  · rw [normalize, Lexeme.filterMap_lexeme_parts]

end Worksheet.Formula
