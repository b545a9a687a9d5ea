import Worksheet.Proofs.Formula.Literal

/-! The lexemes of an expression and where they stand. The scan is told in steps, each with the
characters that it was made from, so that lexemes can be compared with what is read as references
from the same text. -/
namespace Worksheet.Formula.Lexeme

/-- The characters of one step of the scan, and the lexeme that they give unless they are blank. -/
structure Part where
  source : List Char
  lexeme? : Option Lexeme
deriving DecidableEq

/-- The step that is made from the front of a text, and the text that it leaves. -/
def first (c : Char) (rest : List Char) : Part × List Char :=
  if isBlank c then (⟨[c], none⟩, rest)
  else if c = '"' then
    (⟨'"' :: (Formula.quoted rest).1, some (.quoted ('"' :: (Formula.quoted rest).1))⟩,
      (Formula.quoted rest).2)
  else if Literal.starts (c :: rest) then
    let split := Literal.split (c :: rest)
    (⟨split.1.source, some (.number split.1)⟩, split.2)
  else if isNameStart c then
    let name := c :: rest.takeWhile isNameChar
    (⟨name, some (.name name)⟩, rest.dropWhile isNameChar)
  else if c = '^' then (⟨[c], some (.operator ['*', '*'])⟩, rest)
  else
    let double := (c :: rest).take 2
    if doubleOperators.contains double then (⟨double, some (.operator double)⟩, rest.drop 1)
    else (⟨[c], some (.operator [c])⟩, rest)

inductive Reads : List Char → Part → List Char → Prop where
  | blank {c : Char} (rest : List Char) : isBlank c → Reads (c :: rest) ⟨[c], none⟩ rest
  | quoted (rest : List Char) : Reads ('"' :: rest)
      ⟨'"' :: (Formula.quoted rest).1, some (.quoted ('"' :: (Formula.quoted rest).1))⟩
      (Formula.quoted rest).2
  | number {cs : List Char} : Literal.starts cs →
      Reads cs ⟨(Literal.split cs).1.source, some (.number (Literal.split cs).1)⟩
        (Literal.split cs).2
  | name {c : Char} (rest : List Char) : isNameStart c → Reads (c :: rest)
      ⟨c :: rest.takeWhile isNameChar, some (.name (c :: rest.takeWhile isNameChar))⟩
      (rest.dropWhile isNameChar)
  | power (rest : List Char) : Reads ('^' :: rest) ⟨['^'], some (.operator ['*', '*'])⟩ rest
  | double {c d : Char} (rest : List Char) : [c, d] ∈ doubleOperators →
      Reads (c :: d :: rest) ⟨[c, d], some (.operator [c, d])⟩ rest
  | single {c : Char} (rest : List Char) : ¬isBlank c → c ≠ '"' → ¬Literal.starts (c :: rest) →
      ¬isNameStart c → c ≠ '^' → (∀ d ∈ rest.head?, [c, d] ∉ doubleOperators) →
      Reads (c :: rest) ⟨[c], some (.operator [c])⟩ rest

theorem single_not_double (c : Char) : ¬doubleOperators.contains [c] := by
  simp [doubleOperators]

theorem first_reads (c : Char) (rest : List Char) :
    Reads (c :: rest) (first c rest).1 (first c rest).2 := by
  unfold first
  split_ifs with blank quote number start power
  · exact .blank rest blank
  · subst quote
    exact .quoted rest
  · exact .number number
  · exact .name rest start
  · subst power
    exact .power rest
  · cases rest with
    | nil =>
      dsimp only [List.take, List.drop]
      rw [if_neg (single_not_double c)]
      exact .single _ blank quote number start power (by simp)
    | cons d tail =>
      dsimp only [List.take, List.drop]
      split_ifs with double
      · exact .double tail (List.contains_iff_mem.mp double)
      · exact .single _ blank quote number start power (by simpa using double)

variable {cs rest : List Char} {part : Part}

theorem doubleOperators_plain {operator : List Char} {c : Char}
    (double : operator ∈ doubleOperators) (member : c ∈ operator) : ¬isNameChar c ∧ c ≠ '"' := by
  have all : doubleOperators.all fun operator => operator.all fun c =>
      !isNameChar c && c != '"' := by decide
  simpa using List.all_eq_true.mp (List.all_eq_true.mp all operator double) c member

theorem not_isBlank {c : Char} (name : isNameChar c) : ¬isBlank c := by
  intro blank
  simp only [isBlank, Bool.or_eq_true, decide_eq_true_eq] at blank
  rcases blank with (((rfl | rfl) | rfl) | rfl) | rfl <;> exact absurd name (by decide)

namespace Reads

theorem append (h : Reads cs part rest) : part.source ++ rest = cs := by
  cases h with
  | quoted rest => simp [quoted_append]
  | number => exact Literal.split_append cs
  | name rest => simp
  | _ => rfl

theorem source_ne_nil (h : Reads cs part rest) : part.source ≠ [] := by
  cases h with
  | number starts =>
    intro none
    have shorter := Literal.split_length starts
    have whole := Literal.split_append cs
    rw [show (Literal.split cs).1.source = [] from none, List.nil_append] at whole
    rw [whole] at shorter
    exact Nat.lt_irrefl _ shorter
  | _ => simp

theorem length (h : Reads cs part rest) : rest.length < cs.length := by
  have front := List.length_pos_iff.mpr h.source_ne_nil
  rw [← h.append, List.length_append]
  omega

theorem quoted_or_plain (h : Reads cs part rest) :
    (∃ behind, cs = '"' :: behind ∧ rest = (Formula.quoted behind).2 ∧
      part = ⟨'"' :: (Formula.quoted behind).1,
        some (.quoted ('"' :: (Formula.quoted behind).1))⟩) ∨
      '"' ∉ part.source ∧ ∀ text, part.lexeme? ≠ some (.quoted text) := by
  cases h with
  | blank rest blank =>
    refine .inr ⟨fun member => ?_, by simp⟩
    obtain rfl := List.mem_singleton.mp member
    exact absurd blank (by decide)
  | quoted rest => exact .inl ⟨rest, rfl, rfl, rfl⟩
  | number starts => exact .inr ⟨(Literal.split_wellFormed starts).plain, by simp⟩
  | name rest start =>
    exact .inr ⟨plain_run (ne_quote_of_isNameStart start) rfl rest, by simp⟩
  | power rest => exact .inr ⟨by decide, by simp⟩
  | double rest double =>
    exact .inr ⟨fun member => (doubleOperators_plain double member).2 rfl, by simp⟩
  | single rest _ quote => exact .inr ⟨by simpa using quote.symm, by simp⟩

theorem outside (h : Reads cs part rest) : Outside cs rest := by
  rcases h.quoted_or_plain with ⟨behind, rfl, rfl, rfl⟩ | ⟨plain, _⟩
  · exact .literal (.here _)
  · exact h.append ▸ .append plain rest

/-- A number never starts with a digit behind a name character: both would be in one lexeme. -/
theorem boundary {c : Char} (h : Reads cs part rest) (last : c ∈ part.source.getLast?)
    (name : isNameChar c) : ∀ d ∈ rest.head?, d.isDigit = false := by
  cases h with
  | blank rest blank =>
    obtain rfl := Option.some.inj last
    exact absurd blank (not_isBlank name)
  | quoted rest =>
    by_cases more : (Formula.quoted rest).2 = []
    · simp [more]
    · obtain ⟨text, closed⟩ := quoted_closed more
      rw [closed, ← List.cons_append, List.getLast?_concat] at last
      obtain rfl := Option.some.inj last
      exact absurd name (by decide)
  | number => exact Literal.split_stop cs
  | name rest =>
    exact fun d first => not_isDigit_of_not_isNameChar (head_dropWhile first)
  | power rest =>
    obtain rfl := Option.some.inj last
    exact absurd name (by decide)
  | double rest double =>
    obtain rfl := Option.some.inj last
    exact absurd name (doubleOperators_plain double (by simp)).1
  | @single first rest _ _ starts start =>
    obtain rfl : first = c := Option.some.inj last
    rcases isNameChar_iff.mp name with name | digit
    · exact absurd name start
    · exact absurd (by simp [Literal.starts, digit]) starts

theorem number_whole {source : List Char} {l : Literal}
    (h : Reads cs ⟨source, some (.number l)⟩ rest) :
    source = l.source ∧ l.WellFormed ∧ ∀ d ∈ rest.head?, d.isDigit = false := by
  cases h with
  | number starts => exact ⟨rfl, Literal.split_wellFormed starts, Literal.split_stop cs⟩

end Reads

theorem scan_first (c : Char) (rest : List Char) :
    scan (c :: rest) = (first c rest).1.lexeme?.toList ++ scan (first c rest).2 := by
  rw [scan]
  unfold first
  split_ifs
  · rfl
  · rfl
  · rfl
  · rfl
  · rfl
  · cases rest with
    | nil => simp [scan]
    | cons d tail =>
      simp only [List.contains_iff_mem, List.take, List.drop]
      split_ifs <;> rfl

/-- All steps of the scan. -/
def parts : List Char → List Part
  | [] => []
  | c :: rest => (first c rest).1 :: parts (first c rest).2
termination_by cs => cs.length
decreasing_by exact (first_reads c rest).length

theorem parts_cons (c : Char) (rest : List Char) :
    parts (c :: rest) = (first c rest).1 :: parts (first c rest).2 := by rw [parts]

theorem flatMap_source_parts (cs : List Char) : (parts cs).flatMap Part.source = cs := by
  fun_induction parts cs with
  | case1 => rfl
  | case2 c rest ih => rw [List.flatMap_cons, ih, (first_reads c rest).append]

/-- The steps give the lexemes of the text. -/
theorem filterMap_lexeme_parts (cs : List Char) :
    (parts cs).filterMap Part.lexeme? = scan cs := by
  fun_induction parts cs with
  | case1 => simp [scan]
  | case2 c rest ih =>
    rw [scan_first, ← ih]
    cases lexeme : (first c rest).1.lexeme? <;> simp [lexeme]

variable {front back : List Part}

theorem parts_reads (steps : parts cs = part :: back) :
    ∃ rest, Reads cs part rest ∧ parts rest = back := by
  cases cs with
  | nil => simp [parts] at steps
  | cons c rest =>
    rw [parts_cons] at steps
    obtain ⟨rfl, rfl⟩ := List.cons.inj steps
    exact ⟨_, first_reads c rest, rfl⟩

/-- Scanning starts anew behind every step. -/
theorem parts_suffix (steps : parts cs = front ++ back) :
    parts (back.flatMap Part.source) = back := by
  induction front generalizing cs with
  | nil => rw [show back = parts cs from steps.symm, flatMap_source_parts]
  | cons part front ih =>
    obtain ⟨_, _, following⟩ := parts_reads steps
    exact ih following

theorem parts_at (steps : parts cs = front ++ part :: back) :
    Reads (part.source ++ back.flatMap Part.source) part (back.flatMap Part.source) := by
  obtain ⟨rest, reads, following⟩ := parts_reads (parts_suffix steps)
  obtain rfl : back.flatMap Part.source = rest := by rw [← following, flatMap_source_parts]
  rwa [List.flatMap_cons] at reads

theorem parts_whole (steps : parts cs = front ++ part :: back) :
    front.flatMap Part.source ++ (part.source ++ back.flatMap Part.source) = cs := by
  rw [← List.flatMap_cons, ← List.flatMap_append, ← steps, flatMap_source_parts]

theorem parts_outside (steps : parts cs = front ++ back) :
    Outside cs (back.flatMap Part.source) := by
  induction front generalizing cs with
  | nil =>
    obtain rfl : back.flatMap Part.source = cs := by
      rw [show back = parts cs from steps.symm, flatMap_source_parts]
    exact .here _
  | cons part front ih =>
    obtain ⟨rest, reads, following⟩ := parts_reads steps
    exact reads.outside.trans (ih following)

theorem parts_boundary {c : Char} (steps : parts cs = front ++ back)
    (last : c ∈ (front.flatMap Part.source).getLast?) (name : isNameChar c) :
    ∀ d ∈ (back.flatMap Part.source).head?, d.isDigit = false := by
  rcases List.eq_nil_or_concat front with rfl | ⟨front, part, rfl⟩
  · simp at last
  · rw [List.concat_eq_append, List.append_assoc, List.singleton_append] at steps
    have reads := parts_at steps
    refine reads.boundary ?_ name
    simpa [reads.source_ne_nil] using last

end Worksheet.Formula.Lexeme
