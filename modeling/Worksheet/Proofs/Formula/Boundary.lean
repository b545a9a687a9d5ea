import Worksheet.Proofs.Formula.StringLiteral

/-! Texts that are scanned one behind the other. Where no literal is open at the end of the first
text, and no number or name goes on from there, its lexemes do not depend on what follows. Nothing
goes on where the text ends in neither, and nothing goes on over a blank. -/
namespace Worksheet.Formula

variable {cs rest : List Char} {p : Char → Bool}

theorem dropWhile_ne_nil (filled : cs ≠ []) (stop : ∀ c, [c] <:+ cs → p c = false) :
    cs.dropWhile p ≠ [] := by
  obtain ⟨front, c, rfl⟩ := (List.eq_nil_or_concat cs).resolve_left filled
  intro none
  have all := List.dropWhile_eq_nil_iff.mp none c (by simp)
  rw [stop c ⟨front, by simp⟩] at all
  exact Bool.false_ne_true all

theorem takeWhile_prolong (stop : cs.dropWhile p ≠ [] ∨ ∀ c ∈ rest.head?, p c = false) :
    (cs ++ rest).takeWhile p = cs.takeWhile p ∧
      (cs ++ rest).dropWhile p = cs.dropWhile p ++ rest := by
  refine run_unique ?_ (fun _ => List.mem_takeWhile_imp) (fun _ => List.mem_takeWhile_imp)
    (fun _ => head_dropWhile) ?_
  · rw [List.takeWhile_append_dropWhile, ← List.append_assoc, List.takeWhile_append_dropWhile]
  · intro c first
    cases left : cs.dropWhile p with
    | nil => exact stop.resolve_left (absurd left) c (by simpa [left] using first)
    | cons d behind =>
      have here : c ∈ (cs.dropWhile p).head? := by simpa [left] using first
      exact head_dropWhile here

/-- No number or name can go on behind the text: it ends neither in one nor in a point, and not in
the letter and the sign of an exponent that has no digits yet. -/
structure Ends (cs : List Char) : Prop where
  last : ∀ c, [c] <:+ cs → ¬isNameChar c ∧ c ≠ '.'
  exponent : ∀ e sign, [e, sign] <:+ cs → e = 'e' ∨ e = 'E' → ¬Literal.isSign sign

namespace Ends

theorem suffix (h : Ends cs) (later : rest <:+ cs) : Ends rest where
  last c final := h.last c (final.trans later)
  exponent e sign final := h.exponent e sign (final.trans later)

end Ends

/-- A blank comes next, or nothing does. -/
def Parted (rest : List Char) : Prop := ∀ c ∈ rest.head?, Lexeme.isBlank c

theorem Lexeme.blank_apart {c : Char} (blank : isBlank c) :
    ¬isNameChar c ∧ c ≠ '.' ∧ ¬Literal.isSign c := by
  refine ⟨fun name => not_isBlank name blank, ?_, fun sign => ?_⟩
  · rintro rfl
    exact absurd blank (by decide)
  · rcases Literal.isSign_iff.mp sign with rfl | rfl <;> exact absurd blank (by decide)

/-- Between these texts no number and no name goes on, because of what the first text ends in or
because of what follows it. -/
def Seam (cs rest : List Char) : Prop := cs ≠ [] ∧ Ends cs ∨ Parted rest

namespace Seam

theorem run (h : Seam cs rest) (name : ∀ c, p c → isNameChar c) :
    (cs ++ rest).takeWhile p = cs.takeWhile p ∧
      (cs ++ rest).dropWhile p = cs.dropWhile p ++ rest ∧ Seam (cs.dropWhile p) rest := by
  have never {c : Char} (other : ¬isNameChar c) : p c = false :=
    Bool.eq_false_iff.mpr fun run => other (name c run)
  rcases h with ⟨filled, ends⟩ | parted
  · have stop := dropWhile_ne_nil filled fun c final => never (ends.last c final).1
    obtain ⟨taken, left⟩ := takeWhile_prolong (.inl stop)
    exact ⟨taken, left, .inl ⟨stop, ends.suffix (List.dropWhile_suffix p)⟩⟩
  · have stop : ∀ c ∈ rest.head?, p c = false := fun c first =>
      never (Lexeme.blank_apart (parted c first)).1
    exact ⟨(takeWhile_prolong (.inr stop)).1, (takeWhile_prolong (.inr stop)).2, .inr parted⟩

theorem digits (h : Seam cs rest) :
    (cs ++ rest).takeWhile Char.isDigit = cs.takeWhile Char.isDigit ∧
      (cs ++ rest).dropWhile Char.isDigit = cs.dropWhile Char.isDigit ++ rest ∧
      Seam (cs.dropWhile Char.isDigit) rest :=
  h.run fun _ digit => isNameChar_iff.mpr (.inr digit)

theorem tail {c : Char} (h : Seam (c :: cs) rest) (other : isNameChar c ∨ c = '.') :
    Seam cs rest := by
  refine h.imp_left fun ⟨_, ends⟩ => ⟨?_, ends.suffix (List.suffix_cons c cs)⟩
  rintro rfl
  obtain ⟨name, point⟩ := ends.last c (List.suffix_refl _)
  exact other.elim name point

theorem exponent {e sign : Char} (h : Seam (e :: sign :: cs) rest) (letter : e = 'e' ∨ e = 'E')
    (signed : Literal.isSign sign) : Seam cs rest := by
  refine h.imp_left fun ⟨_, ends⟩ => ⟨?_, ends.suffix ⟨[e, sign], rfl⟩⟩
  rintro rfl
  exact ends.exponent e sign (List.suffix_refl _) letter signed

theorem parted (h : Seam [] rest) : Parted rest := h.resolve_left fun left => left.1 rfl

end Seam

namespace Literal

theorem startsDigit_prolong (seam : Seam cs rest) :
    startsDigit (cs ++ rest) = startsDigit cs := by
  cases cs with
  | cons c cs => rfl
  | nil =>
    cases rest with
    | nil => rfl
    | cons c rest =>
      have name := (Lexeme.blank_apart (seam.parted c rfl)).1
      exact not_isDigit_of_not_isNameChar (Bool.eq_false_iff.mpr name)

theorem splitFraction_prolong (seam : Seam cs rest) :
    splitFraction (cs ++ rest) = ((splitFraction cs).1, (splitFraction cs).2 ++ rest) ∧
      Seam (splitFraction cs).2 rest := by
  have plain {c : Char} (behind : List Char) (other : c ≠ '.') :
      splitFraction (c :: behind) = (none, c :: behind) := by
    rw [splitFraction]
    rintro _ same
    exact other (List.cons.inj same).1
  cases cs with
  | nil =>
    refine ⟨?_, seam⟩
    cases rest with
    | nil => rfl
    | cons c rest => exact plain rest (Lexeme.blank_apart (seam.parted c rfl)).2.1
  | cons c behind =>
    by_cases point : c = '.'
    · subst point
      obtain ⟨taken, left, seam⟩ := (seam.tail (.inr rfl)).digits
      refine ⟨?_, seam⟩
      simp only [List.cons_append, splitFraction, taken, left]
    · rw [List.cons_append, plain _ point, plain _ point]
      exact ⟨rfl, seam⟩

theorem splitExponent_prolong (seam : Seam cs rest) :
    splitExponent (cs ++ rest) = ((splitExponent cs).1, (splitExponent cs).2 ++ rest) := by
  have name {e : Char} (letter : e = 'e' ∨ e = 'E') : isNameChar e := by
    rcases letter with rfl | rfl <;> rfl
  cases cs with
  | nil =>
    cases rest with
    | nil => rfl
    | cons c rest =>
      have blank := Lexeme.blank_apart (seam.parted c rfl)
      have other : ¬(c = 'e' ∨ c = 'E') := fun letter => blank.1 (name letter)
      simp only [List.nil_append, splitExponent, if_neg other]
  | cons e behind =>
    by_cases letter : e = 'e' ∨ e = 'E'
    · have later := seam.tail (.inl (name letter))
      cases behind with
      | nil =>
        cases rest with
        | nil => simp [splitExponent, letter]
        | cons c rest =>
          obtain ⟨other, _, sign⟩ := Lexeme.blank_apart (later.parted c rfl)
          have digit := not_isDigit_of_not_isNameChar (Bool.eq_false_iff.mpr other)
          simp [splitExponent, letter, sign, digit]
      | cons sign digits =>
        obtain ⟨plain, plain', _⟩ := later.digits
        rw [List.cons_append] at plain plain'
        by_cases signed : isSign sign
        · have digits := seam.exponent letter signed
          obtain ⟨taken, left, _⟩ := digits.digits
          simp only [List.cons_append, splitExponent, if_pos letter, startsDigit_prolong digits,
            taken, left, plain, plain']
          split_ifs <;> rfl
        · simp only [List.cons_append, splitExponent, if_pos letter, plain, plain',
            Bool.eq_false_iff.mpr signed, Bool.false_and, Bool.false_eq_true, if_false]
          split_ifs <;> rfl
    · simp only [List.cons_append, splitExponent, if_neg letter]

theorem split_prolong (seam : Seam cs rest) :
    split (cs ++ rest) = ((split cs).1, (split cs).2 ++ rest) := by
  obtain ⟨taken, left, seam⟩ := seam.digits
  obtain ⟨same, seam⟩ := splitFraction_prolong seam
  simp only [split, taken, left, same, splitExponent_prolong seam]

theorem starts_prolong (seam : Seam cs rest) (filled : cs ≠ []) :
    starts (cs ++ rest) = starts cs := by
  obtain ⟨c, behind, rfl⟩ := List.exists_cons_of_ne_nil filled
  by_cases point : c = '.'
  · simp only [List.cons_append, starts, startsDigit_prolong (seam.tail (.inr point))]
  · simp [starts, point]

end Literal

/-- No string literal is open at the end of the text. -/
inductive Closed : List Char → Prop where
  | nil : Closed []
  | plain {c : Char} {cs : List Char} : c ≠ '"' → Closed cs → Closed (c :: cs)
  | literal {body cs : List Char} : (∀ rest, Closes body rest) → Closed cs →
      Closed ('"' :: (body ++ cs))

theorem Outside.closed (h : Outside cs rest) (more : rest ≠ []) :
    ∃ front, cs = front ++ rest ∧ Closed front := by
  induction h with
  | here => exact ⟨[], rfl, .nil⟩
  | plain other _ ih =>
    obtain ⟨front, rfl, closed⟩ := ih more
    exact ⟨_, rfl, closed.plain other⟩
  | @literal cs _ _ ih =>
    obtain ⟨front, behind, closed⟩ := ih more
    have closes := closes_quoted cs
    rw [behind] at closes
    refine ⟨_, ?_, closed.literal (closes.other (by simp [more]))⟩
    rw [List.cons_append, List.append_assoc, ← behind, quoted_append]

namespace Closed

theorem behind {front : List Char} (h : Closed (front ++ cs)) (plain : '"' ∉ front) :
    Closed cs := by
  induction front with
  | nil => exact h
  | cons c front ih =>
    obtain ⟨other, plain⟩ := not_or.mp (mt List.mem_cons.mpr plain)
    generalize whole : c :: front ++ cs = text at h
    cases h with
    | nil => simp at whole
    | plain _ h =>
      obtain ⟨_, rfl⟩ := List.cons.inj whole
      exact ih h plain
    | literal => exact absurd (List.cons.inj whole).1.symm other

theorem quoted (h : Closed ('"' :: cs)) (rest : List Char) :
    Formula.quoted (cs ++ rest) = ((Formula.quoted cs).1, (Formula.quoted cs).2 ++ rest) ∧
      Closed (Formula.quoted cs).2 := by
  cases h with
  | plain other => exact absurd rfl other
  | @literal body behind closes closed =>
    rw [List.append_assoc, (closes (behind ++ rest)).quoted_eq, (closes behind).quoted_eq]
    exact ⟨rfl, closed⟩

end Closed

namespace Lexeme

variable {part : Part}

theorem starts_cases {c : Char} (starts : Literal.starts (c :: cs)) : c.isDigit ∨ c = '.' := by
  rcases Bool.or_eq_true_iff.mp starts with digit | point
  · exact .inl digit
  · exact .inr (of_decide_eq_true (Bool.and_eq_true_iff.mp point).1)

theorem Reads.eq_first {c : Char} (h : Reads (c :: cs) part rest) : first c cs = (part, rest) := by
  cases h with
  | blank rest blank => rw [first, if_pos blank]
  | quoted rest => rfl
  | number starts =>
    have apart : ¬isBlank c ∧ c ≠ '"' := by
      rcases starts_cases starts with digit | rfl
      · exact ⟨not_isBlank (isNameChar_iff.mpr (.inr digit)), ne_quote_of_isDigit digit⟩
      · decide
    rw [first, if_neg apart.1, if_neg apart.2, if_pos starts]
  | name rest start =>
    have quote := ne_quote_of_isNameStart start
    have number : ¬Literal.starts (c :: cs) := by
      intro starts
      rcases starts_cases starts with digit | rfl
      · exact not_isNameStart_of_isDigit digit start
      · exact absurd start (by decide)
    rw [first, if_neg (not_isBlank (isNameChar_iff.mpr (.inl start))), if_neg quote,
      if_neg number, if_pos start]
  | power rest => rfl
  | double rest double =>
    simp only [doubleOperators, List.mem_cons, List.cons.injEq, and_true, List.not_mem_nil,
      or_false] at double
    rcases double with ⟨rfl, rfl⟩ | ⟨rfl, rfl⟩ | ⟨rfl, rfl⟩ | ⟨rfl, rfl⟩ | ⟨rfl, rfl⟩ |
      ⟨rfl, rfl⟩ | ⟨rfl, rfl⟩ <;> rfl
  | single rest blank quote number start power double =>
    have other : ¬doubleOperators.contains ((c :: cs).take 2) := by
      cases cs with
      | nil => exact single_not_double c
      | cons d cs => simpa using double d rfl
    rw [first, if_neg blank, if_neg quote, if_neg number, if_neg start, if_neg power]
    exact if_neg other

theorem Reads.parts (h : Reads cs part rest) : parts cs = part :: parts rest := by
  obtain ⟨c, behind, rfl⟩ := List.exists_cons_of_ne_nil (l := cs) (by
    rintro rfl
    exact absurd h.length (Nat.not_lt_zero _))
  rw [parts_cons, h.eq_first]

theorem Reads.scan (h : Reads cs part rest) : scan cs = part.lexeme?.toList ++ scan rest := by
  rw [← filterMap_lexeme_parts, h.parts, ← filterMap_lexeme_parts]
  cases lexeme : part.lexeme? <;> simp [lexeme]

def Unjoined (rest : List Char) : Prop := ∀ c, ∀ d ∈ rest.head?, [c, d] ∉ doubleOperators

theorem unjoined_of_operand (starts : ∀ d ∈ rest.head?, isNameChar d ∨ d = '-') :
    Unjoined rest := by
  intro c d first double
  rcases starts d first with name | rfl
  · exact (doubleOperators_plain double (by simp)).1 name
  · simp [doubleOperators] at double

theorem unjoined_of_parted (parted : Parted rest) : Unjoined rest := by
  intro c d first double
  have blank := parted d first
  simp only [doubleOperators, List.mem_cons, List.cons.injEq, and_true, List.not_mem_nil,
    or_false] at double
  rcases double with ⟨_, rfl⟩ | ⟨_, rfl⟩ | ⟨_, rfl⟩ | ⟨_, rfl⟩ | ⟨_, rfl⟩ | ⟨_, rfl⟩ | ⟨_, rfl⟩ <;>
    exact absurd blank (by decide)

/-- What is read from the front of a text does not change when more follows. -/
theorem Reads.prolong {behind : List Char} (h : Reads cs part behind) (seam : Seam cs rest)
    (closed : Closed cs) (unjoined : Unjoined rest) :
    Reads (cs ++ rest) part (behind ++ rest) ∧ Closed behind := by
  have plain (other : '"' ∉ part.source) : Closed behind := by
    rw [← h.append] at closed
    exact closed.behind other
  cases h with
  | blank behind blank =>
    refine ⟨.blank _ blank, plain ?_⟩
    intro member
    obtain rfl := List.mem_singleton.mp member
    exact absurd blank (by decide)
  | quoted behind =>
    obtain ⟨same, closed⟩ := closed.quoted rest
    have reads := Reads.quoted (behind ++ rest)
    rw [same] at reads
    exact ⟨reads, closed⟩
  | number starts =>
    have filled : cs ≠ [] := by
      rintro rfl
      simp [Literal.starts] at starts
    have reads := Reads.number ((Literal.starts_prolong seam filled).trans starts)
    rw [Literal.split_prolong seam] at reads
    exact ⟨reads, plain (Literal.split_wellFormed starts).plain⟩
  | @name c behind start =>
    have later := seam.tail (.inl (isNameChar_iff.mpr (.inl start)))
    obtain ⟨taken, left, _⟩ := later.run (p := isNameChar) fun _ => id
    have reads := Reads.name (behind ++ rest) start
    rw [taken, left] at reads
    exact ⟨reads, plain (plain_run (ne_quote_of_isNameStart start) rfl behind)⟩
  | power behind => exact ⟨.power _, plain (by simp)⟩
  | double behind double =>
    exact ⟨.double _ double, plain fun member => (doubleOperators_plain double member).2 rfl⟩
  | @single c behind blank quote number start power double =>
    refine ⟨.single _ blank quote ?_ start power ?_, plain (by simpa using quote.symm)⟩
    · exact Literal.starts_prolong seam (List.cons_ne_nil c behind) ▸ number
    · intro d first
      cases behind with
      | cons d' behind => exact double d first
      | nil => exact unjoined c d first

/-- The lexemes of a text that ends in front of a seam stand unchanged in front of those of what
follows. -/
theorem scan_append (seam : Ends cs ∨ Parted rest) (closed : Closed cs)
    (unjoined : Unjoined rest) : scan (cs ++ rest) = scan cs ++ scan rest := by
  fun_induction parts cs with
  | case1 => rw [scan.eq_1, List.nil_append, List.nil_append]
  | case2 c behind ih =>
    have reads := first_reads c behind
    have here : Seam (c :: behind) rest := seam.imp_left fun ends => ⟨by simp, ends⟩
    obtain ⟨more, inner⟩ := reads.prolong here closed unjoined
    have later := seam.imp_left fun ends => ends.suffix ⟨_, reads.append⟩
    rw [more.scan, reads.scan, ih later inner, List.append_assoc]

end Lexeme

end Worksheet.Formula
