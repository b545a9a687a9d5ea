import Mathlib.Data.List.TakeWhile
import Worksheet.Formula

/-! The runs of an expression and where they stand. Nothing of the text is lost, a name ends only
where no name character follows, and every character that stands outside the string literals is
part of some run that is none. -/
namespace Worksheet.Formula

/-- Reading the text from its start, string literals as wholes, comes to `rest` between two
characters that are not inside a literal. -/
inductive Outside : List Char → List Char → Prop where
  | here (cs : List Char) : Outside cs cs
  | plain {c : Char} {cs rest : List Char} : c ≠ '"' → Outside cs rest → Outside (c :: cs) rest
  | literal {cs rest : List Char} : Outside (quoted cs).2 rest → Outside ('"' :: cs) rest

namespace Outside

variable {cs rest further : List Char}

theorem trans (h : Outside cs rest) (h' : Outside rest further) : Outside cs further := by
  induction h with
  | here => exact h'
  | plain other _ ih => exact .plain other (ih h')
  | literal _ ih => exact .literal (ih h')

theorem append {front : List Char} (plain : '"' ∉ front) (rest : List Char) :
    Outside (front ++ rest) rest := by
  induction front with
  | nil => exact .here rest
  | cons c front ih =>
    obtain ⟨other, plain⟩ := not_or.mp (mt List.mem_cons.mpr plain)
    exact .plain (Ne.symm other) (ih plain)

theorem append_cases {front : List Char} (plain : '"' ∉ front)
    (h : Outside (front ++ rest) further) :
    (∃ before after, front = before ++ after ∧ after ≠ [] ∧ further = after ++ rest) ∨
      Outside rest further := by
  induction front with
  | nil => exact .inr h
  | cons c front ih =>
    obtain ⟨other, plain⟩ := not_or.mp (mt List.mem_cons.mpr plain)
    cases h with
    | here => exact .inl ⟨[], c :: front, rfl, by simp, rfl⟩
    | plain _ h =>
      refine (ih plain h).imp_left ?_
      rintro ⟨before, after, rfl, filled, same⟩
      exact ⟨c :: before, after, rfl, filled, same⟩
    | literal => exact absurd rfl other

end Outside

theorem quoted_closed {cs : List Char} (more : (quoted cs).2 ≠ []) :
    ∃ text, (quoted cs).1 = text ++ ['"'] := by
  fun_induction quoted cs with
  | case1 => exact absurd rfl more
  | case2 rest => exact ⟨[], rfl⟩
  | case3 c rest ih =>
    obtain ⟨text, closed⟩ := ih more
    exact ⟨'\\' :: c :: text, by rw [closed]; rfl⟩
  | case4 c rest _ _ ih =>
    obtain ⟨text, closed⟩ := ih more
    exact ⟨c :: text, by rw [closed]; rfl⟩

theorem head_dropWhile {p : Char → Bool} {cs : List Char} {c : Char}
    (first : c ∈ (cs.dropWhile p).head?) : p c = false := by
  simpa [Option.mem_def.mp first] using List.head?_dropWhile_not p cs

/-- A maximal run of characters is determined by the text. -/
theorem run_unique {p : Char → Bool} {run run' rest rest' : List Char}
    (same : run ++ rest = run' ++ rest') (all : ∀ c ∈ run, p c) (all' : ∀ c ∈ run', p c)
    (stop : ∀ c ∈ rest.head?, p c = false) (stop' : ∀ c ∈ rest'.head?, p c = false) :
    run = run' ∧ rest = rest' := by
  have take {run rest : List Char} (all : ∀ c ∈ run, p c) (stop : ∀ c ∈ rest.head?, p c = false) :
      (run ++ rest).takeWhile p = run := by
    rw [List.takeWhile_append_of_pos all]
    cases rest with
    | nil => simp
    | cons c rest => simp [stop c rfl]
  have runs : run = run' := by rw [← take all stop, same, take all' stop']
  subst runs
  exact ⟨rfl, List.append_cancel_left same⟩

section Characters

variable {c : Char}

theorem isDigit_toNat : c.isDigit ↔ 48 ≤ c.toNat ∧ c.toNat ≤ 57 := Char.isDigit_iff_toNat

theorem isUpper_toNat : c.isUpper ↔ 65 ≤ c.toNat ∧ c.toNat ≤ 90 := by
  change decide (c.val ≥ 'A'.val ∧ c.val ≤ 'Z'.val) = true ↔ _
  simp [UInt32.le_iff_toNat_le, ← Char.toNat_val]

theorem isLower_toNat : c.isLower ↔ 97 ≤ c.toNat ∧ c.toNat ≤ 122 := by
  change (decide (c.val ≥ 'a'.val) && decide (c.val ≤ 'z'.val)) = true ↔ _
  simp [UInt32.le_iff_toNat_le, ← Char.toNat_val]

theorem isNameStart_iff : isNameStart c ↔ c.isUpper ∨ c.isLower ∨ c = '_' := by
  change ((c.isUpper || c.isLower) || decide (c = '_')) = true ↔ _
  simp [or_assoc]

theorem isNameStart_of_isUpper (upper : c.isUpper) : isNameStart c :=
  isNameStart_iff.mpr (.inl upper)

theorem not_isUpper_of_isDigit (digit : c.isDigit) : ¬c.isUpper := by
  have digit := isDigit_toNat.mp digit
  rw [isUpper_toNat]
  omega

theorem not_isNameStart_of_isDigit (digit : c.isDigit) : ¬isNameStart c := by
  have range := isDigit_toNat.mp digit
  rw [isNameStart_iff, isUpper_toNat, isLower_toNat]
  rintro (upper | lower | rfl)
  · omega
  · omega
  · exact absurd digit (by decide)

theorem not_isNameStart_of_isNumberChar (number : Run.isNumberChar c) : ¬isNameStart c := by
  rcases Bool.or_eq_true_iff.mp number with digit | point
  · exact not_isNameStart_of_isDigit digit
  · rw [of_decide_eq_true point]
    decide

theorem ne_quote_of_isNameStart (start : isNameStart c) : c ≠ '"' := by
  rintro rfl
  exact absurd start (by decide)

theorem ne_quote_of_isNumberChar (number : Run.isNumberChar c) : c ≠ '"' := by
  rintro rfl
  exact absurd number (by decide)

theorem ne_quote_of_isDigit (digit : c.isDigit) : c ≠ '"' :=
  ne_quote_of_isNumberChar (Bool.or_eq_true_iff.mpr (.inl digit))

theorem isNameChar_iff : isNameChar c ↔ isNameStart c ∨ c.isDigit := by
  simp only [isNameChar, isNameStart, Char.isAlphanum, Bool.or_eq_true]
  exact or_right_comm

theorem not_isDigit_of_not_isNameChar (other : isNameChar c = false) :
    c.isDigit = false := by
  have other := mt isNameChar_iff.mpr (Bool.eq_false_iff.mp other)
  exact Bool.eq_false_iff.mpr (not_or.mp other).2

theorem plain_run {p : Char → Bool} (other : c ≠ '"') (never : p '"' = false)
    (rest : List Char) : '"' ∉ c :: rest.takeWhile p := by
  intro member
  rcases List.mem_cons.mp member with rfl | member
  · exact other rfl
  · exact Bool.false_ne_true (never.symm.trans (List.mem_takeWhile_imp member))

end Characters

namespace Run

variable {cs : List Char} {front back : List Run}

theorem flatMap_text_scan (cs : List Char) : (scan cs).flatMap text = cs := by
  fun_induction scan cs with
  | case1 => rfl
  | case2 rest ih => simp [text, ih, quoted_append]
  | case3 c rest _ _ ih => simp [text, ih]
  | case4 c rest _ _ _ ih => simp [text, ih]
  | case5 c rest _ _ _ ih => simp [text, ih]

inductive Reads : List Char → Run → List Char → Prop where
  | quoted (rest : List Char) :
      Reads ('"' :: rest) (.quoted ('"' :: (Formula.quoted rest).1)) (Formula.quoted rest).2
  | digits {c : Char} (rest : List Char) : c.isDigit →
      Reads (c :: rest) (.digits (c :: rest.takeWhile isNumberChar)) (rest.dropWhile isNumberChar)
  | name {c : Char} (rest : List Char) : isNameStart c →
      Reads (c :: rest) (.name (c :: rest.takeWhile isNameChar)) (rest.dropWhile isNameChar)
  | other {c : Char} (rest : List Char) : c ≠ '"' → ¬c.isDigit → ¬isNameStart c →
      Reads (c :: rest) (.other c) rest

theorem scan_reads {run : Run} (runs : scan cs = run :: back) :
    ∃ rest, Reads cs run rest ∧ scan rest = back := by
  unfold scan at runs
  split at runs
  · cases runs
  next c rest =>
    split_ifs at runs with quote digit start <;> cases runs
    · subst quote
      exact ⟨_, .quoted rest, rfl⟩
    · exact ⟨_, .digits rest digit, rfl⟩
    · exact ⟨_, .name rest start, rfl⟩
    · exact ⟨_, .other rest quote digit start, rfl⟩

/-- Scanning starts anew behind every run. -/
theorem scan_suffix (runs : scan cs = front ++ back) : scan (back.flatMap text) = back := by
  induction front generalizing cs with
  | nil => rw [show back = scan cs from runs.symm, flatMap_text_scan]
  | cons run front ih =>
    obtain ⟨_, _, following⟩ := scan_reads runs
    exact ih following

theorem scan_at {run : Run} (runs : scan cs = front ++ run :: back) :
    Reads (run.text ++ back.flatMap text) run (back.flatMap text) := by
  obtain ⟨rest, reads, following⟩ := scan_reads (scan_suffix runs)
  obtain rfl : back.flatMap text = rest := by rw [← following, flatMap_text_scan]
  rwa [List.flatMap_cons] at reads

theorem scan_whole {run : Run} (runs : scan cs = front ++ run :: back) :
    front.flatMap text ++ (run.text ++ back.flatMap text) = cs := by
  rw [← List.flatMap_cons, ← List.flatMap_append, ← runs, flatMap_text_scan]

namespace Reads

variable {rest : List Char} {run : Run}

/-- What is read from the front of a text is its first run. -/
theorem scan_eq (h : Reads cs run rest) : scan cs = run :: scan rest := by
  cases h with
  | quoted rest => rw [scan, if_pos rfl]
  | digits rest digit => rw [scan, if_neg (ne_quote_of_isDigit digit), if_pos digit]
  | name rest start =>
    rw [scan, if_neg (ne_quote_of_isNameStart start),
      if_neg fun digit => not_isNameStart_of_isDigit digit start, if_pos start]
  | other rest quote digit start => rw [scan, if_neg quote, if_neg digit, if_neg start]

theorem append (h : Reads cs run rest) : run.text ++ rest = cs := by
  cases h with
  | quoted rest => simp [text, quoted_append]
  | digits rest => simp [text]
  | name rest => simp [text]
  | other rest => rfl

/-- A name starts as names do, and it goes on as far as name characters do. -/
theorem name_maximal {name : List Char} (h : Reads cs (.name name) rest) :
    (∃ c chars, name = c :: chars ∧ isNameStart c) ∧ (∀ c ∈ name, isNameChar c) ∧
      ∀ c ∈ rest.head?, isNameChar c = false := by
  cases h with
  | @name c rest start =>
    refine ⟨⟨c, _, rfl, start⟩, fun d member => ?_, fun d first => ?_⟩
    · rcases List.mem_cons.mp member with rfl | member
      · exact isNameChar_iff.mpr (.inl start)
      · exact List.mem_takeWhile_imp member
    · exact head_dropWhile first

theorem text_ne_nil (h : Reads cs run rest) : run.text ≠ [] := by cases h <;> simp [text]

theorem digits_all {digits : List Char} (h : Reads cs (.digits digits) rest) :
    ∀ c ∈ digits, isNumberChar c := by
  cases h with
  | digits rest digit =>
    intro c member
    rcases List.mem_cons.mp member with rfl | member
    · simp [isNumberChar, digit]
    · exact List.mem_takeWhile_imp member

theorem other_start {c : Char} (h : Reads cs (.other c) rest) : ¬isNameStart c := by
  cases h with
  | other _ _ _ start => exact start

theorem plain (h : Reads cs run rest) :
    (∃ literal, run = .quoted literal) ∨ '"' ∉ run.text := by
  cases h with
  | quoted => exact .inl ⟨_, rfl⟩
  | digits rest digit => exact .inr (plain_run (ne_quote_of_isDigit digit) rfl rest)
  | name rest start => exact .inr (plain_run (ne_quote_of_isNameStart start) rfl rest)
  | other rest quote => exact .inr fun member => quote (List.mem_singleton.mp member).symm

theorem outside {c : Char} {further : List Char} (h : Reads cs run rest)
    (outside : Outside cs (c :: further)) (other : c ≠ '"') :
    (∃ before after, run.text = before ++ c :: after ∧ further = after ++ rest ∧
      ∀ literal, run ≠ .quoted literal) ∨ Outside rest (c :: further) := by
  rcases h.plain with ⟨literal, rfl⟩ | plain
  · cases h
    cases outside with
    | here => exact absurd rfl other
    | plain quote => exact absurd rfl quote
    | literal outside => exact .inr outside
  · rw [← h.append] at outside
    refine (outside.append_cases plain).imp_left ?_
    rintro ⟨before, after, whole, filled, same⟩
    obtain ⟨d, after, rfl⟩ := List.exists_cons_of_ne_nil filled
    obtain ⟨rfl, rfl⟩ := List.cons.inj same
    refine ⟨before, after, whole, rfl, ?_⟩
    rintro _ rfl
    cases h
    exact plain List.mem_cons_self

end Reads

theorem text_ne_nil {run : Run} (member : run ∈ scan cs) : run.text ≠ [] := by
  obtain ⟨front, back, runs⟩ := List.append_of_mem member
  exact (scan_at runs).text_ne_nil

/-- What stands outside the string literals is part of another run. -/
theorem scan_covers {c : Char} {rest : List Char} (outside : Outside cs (c :: rest))
    (other : c ≠ '"') : ∃ front run back before after, scan cs = front ++ run :: back ∧
      run.text = before ++ c :: after ∧ rest = after ++ back.flatMap text ∧
      ∀ literal, run ≠ .quoted literal := by
  induction runs : scan cs generalizing cs with
  | nil =>
    have none := flatMap_text_scan cs
    rw [runs] at none
    subst none
    cases outside
  | cons run back ih =>
    obtain ⟨left, reads, following⟩ := scan_reads runs
    rcases reads.outside outside other with ⟨before, after, text, rfl, literal⟩ | outside
    · have behind : after ++ left = after ++ back.flatMap Run.text := by
        rw [← following, flatMap_text_scan]
      exact ⟨[], run, back, before, after, rfl, text, behind, literal⟩
    · obtain ⟨front, covering, behind, before, after, rfl, found⟩ := ih outside following
      exact ⟨run :: front, covering, behind, before, after, rfl, found⟩

theorem scan_covers_name {c : Char} {rest : List Char} (outside : Outside cs (c :: rest))
    (start : isNameStart c) : ∃ front back before after,
      scan cs = front ++ .name (before ++ c :: after) :: back ∧
      rest = after ++ back.flatMap text := by
  have other := ne_quote_of_isNameStart start
  obtain ⟨front, run, back, before, after, runs, stands, same, literal⟩ := scan_covers outside other
  have reads := scan_at runs
  cases run with
  | quoted text => exact absurd rfl (literal text)
  | digits text =>
    have number : isNumberChar c := reads.digits_all c (by simp [show text = _ from stands])
    exact absurd start (not_isNameStart_of_isNumberChar number)
  | name text =>
    obtain rfl : text = before ++ c :: after := stands
    exact ⟨front, back, before, after, runs, same⟩
  | other d =>
    obtain rfl : c = d := by
      have member : c ∈ [d] := by simp [show [d] = _ from stands]
      exact List.mem_singleton.mp member
    exact absurd start reads.other_start

end Run

end Worksheet.Formula
