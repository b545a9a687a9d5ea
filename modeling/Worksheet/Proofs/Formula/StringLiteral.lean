import Worksheet.Proofs.Formula.Lexeme

/-! The string literals of a text. Literals are told from the characters alone, and what stands
outside all of them is what both readers of an expression come to between two characters. The
readers agree on them: they are the quoted lexemes of the text. -/
namespace Worksheet.Formula

/-- What stands behind an opening quote up to the closing one, or all of the text where nothing
closes it. A backslash takes the next character with it. -/
inductive Closes : List Char → List Char → Prop where
  | quote (rest : List Char) : Closes ['"'] rest
  | escape (c : Char) {body rest : List Char} : Closes body rest → Closes ('\\' :: c :: body) rest
  | plain {c : Char} {body rest : List Char} : c ≠ '"' → c ≠ '\\' → Closes body rest →
      Closes (c :: body) rest
  | unclosed : Closes [] []
  | unclosedEscape : Closes ['\\'] []

theorem Closes.quoted_eq {body rest : List Char} (h : Closes body rest) :
    quoted (body ++ rest) = (body, rest) := by
  induction h with
  | quote => rfl
  | escape c _ ih => simp [quoted, ih]
  | @plain c body rest other other' _ ih =>
    have split : quoted (c :: (body ++ rest)) =
        (c :: (quoted (body ++ rest)).1, (quoted (body ++ rest)).2) := by
      rw [quoted.eq_4]
      · exact other
      · rintro _ _ rfl
        exact absurd rfl other'
    rw [List.cons_append, split, ih]
  | unclosed => rfl
  | unclosedEscape => rfl

theorem closes_quoted (cs : List Char) : Closes (quoted cs).1 (quoted cs).2 := by
  fun_induction quoted cs with
  | case1 => exact .unclosed
  | case2 rest => exact .quote rest
  | case3 c rest ih => exact .escape c ih
  | case4 c rest other escape ih =>
    by_cases backslash : c = '\\'
    · subst backslash
      cases rest with
      | nil => exact .unclosedEscape
      | cons d rest => exact absurd rfl (escape d rest rfl)
    · exact .plain other backslash ih

/-- What follows a closed literal does not matter, but only a closed one is followed. -/
theorem Closes.other {body rest : List Char} (h : Closes body rest) (more : rest ≠ [])
    (rest' : List Char) : Closes body rest' := by
  induction h with
  | quote => exact .quote rest'
  | escape c _ ih => exact .escape c (ih more)
  | plain other escape _ ih => exact .plain other escape (ih more)
  | unclosed => exact absurd rfl more
  | unclosedEscape => exact absurd rfl more

/-- A string literal of a text, behind the characters in front of it. A quote that is not part of a
literal before it opens one. -/
inductive StringLiteral : List Char → List Char → List Char → Prop where
  | here {body rest : List Char} : Closes body rest →
      StringLiteral ('"' :: (body ++ rest)) [] ('"' :: body)
  | plain {c : Char} {cs front literal : List Char} : c ≠ '"' → StringLiteral cs front literal →
      StringLiteral (c :: cs) (c :: front) literal
  | later {body rest front literal : List Char} : Closes body rest →
      StringLiteral rest front literal →
      StringLiteral ('"' :: (body ++ rest)) ('"' :: (body ++ front)) literal

variable {cs rest before front literal : List Char} {c : Char}

theorem stringLiteral_plain (other : c ≠ '"') : StringLiteral (c :: cs) front literal ↔
    ∃ between, front = c :: between ∧ StringLiteral cs between literal := by
  constructor
  · generalize same : c :: cs = text
    rintro (_ | ⟨_, literals⟩ | _) <;> obtain ⟨rfl, rfl⟩ := List.cons.inj same
    · exact absurd rfl other
    · exact ⟨_, rfl, literals⟩
    · exact absurd rfl other
  · rintro ⟨between, rfl, literals⟩
    exact .plain other literals

theorem stringLiteral_quote : StringLiteral ('"' :: cs) front literal ↔
    (front = [] ∧ literal = '"' :: (quoted cs).1) ∨
      ∃ between, front = '"' :: ((quoted cs).1 ++ between) ∧
        StringLiteral (quoted cs).2 between literal := by
  constructor
  · generalize same : '"' :: cs = text
    rintro (closes | ⟨other, _⟩ | ⟨closes, literals⟩) <;> obtain ⟨quote, rfl⟩ := List.cons.inj same
    · exact .inl ⟨rfl, by rw [closes.quoted_eq]⟩
    · exact absurd quote.symm other
    · exact .inr ⟨_, by rw [closes.quoted_eq], by rwa [closes.quoted_eq]⟩
  · have closes := closes_quoted cs
    rintro (⟨rfl, rfl⟩ | ⟨between, rfl, literals⟩)
    · simpa only [quoted_append] using StringLiteral.here closes
    · simpa only [quoted_append] using literals.later closes

theorem stringLiteral_append {text : List Char} (plain : '"' ∉ text) :
    StringLiteral (text ++ rest) front literal ↔
      ∃ between, front = text ++ between ∧ StringLiteral rest between literal := by
  induction text generalizing front with
  | nil => simp
  | cons c text ih =>
    obtain ⟨other, plain⟩ := not_or.mp (mt List.mem_cons.mpr plain)
    rw [List.cons_append, stringLiteral_plain (Ne.symm other)]
    constructor
    · rintro ⟨front, rfl, literals⟩
      obtain ⟨between, rfl, inner⟩ := (ih plain).mp literals
      exact ⟨between, rfl, inner⟩
    · rintro ⟨between, rfl, literals⟩
      exact ⟨text ++ between, rfl, (ih plain).mpr ⟨between, rfl, literals⟩⟩

theorem StringLiteral.opens (h : StringLiteral cs front literal) :
    ∃ behind, cs = front ++ '"' :: behind := by
  induction h with
  | here => exact ⟨_, rfl⟩
  | plain _ _ ih =>
    obtain ⟨behind, rfl⟩ := ih
    exact ⟨behind, rfl⟩
  | later _ _ ih =>
    obtain ⟨behind, rfl⟩ := ih
    exact ⟨behind, by simp⟩

/-- All string literals of a text in order. -/
def stringLiterals (cs : List Char) : List (List Char) :=
  match cs with
  | [] => []
  | c :: rest =>
    if c = '"' then ('"' :: (quoted rest).1) :: stringLiterals (quoted rest).2
    else stringLiterals rest
termination_by cs.length
decreasing_by
  · exact Nat.lt_succ_of_le (quoted_length rest)
  · simp

theorem stringLiterals_nil : stringLiterals [] = [] := by rw [stringLiterals]

theorem stringLiterals_quote (rest : List Char) :
    stringLiterals ('"' :: rest) = ('"' :: (quoted rest).1) :: stringLiterals (quoted rest).2 := by
  rw [stringLiterals, if_pos rfl]

theorem stringLiterals_plain (other : c ≠ '"') (rest : List Char) :
    stringLiterals (c :: rest) = stringLiterals rest := by
  rw [stringLiterals, if_neg other]

theorem stringLiterals_append {text : List Char} (plain : '"' ∉ text) (rest : List Char) :
    stringLiterals (text ++ rest) = stringLiterals rest := by
  induction text with
  | nil => rfl
  | cons c text ih =>
    obtain ⟨other, plain⟩ := not_or.mp (mt List.mem_cons.mpr plain)
    rw [List.cons_append, stringLiterals_plain (Ne.symm other), ih plain]

namespace Outside

theorem suffix (h : Outside cs rest) : ∃ before, cs = before ++ rest := by
  induction h with
  | here cs => exact ⟨[], rfl⟩
  | @plain c _ _ _ _ ih =>
    obtain ⟨before, rfl⟩ := ih
    exact ⟨c :: before, rfl⟩
  | @literal cs _ _ ih =>
    obtain ⟨before, same⟩ := ih
    refine ⟨'"' :: ((quoted cs).1 ++ before), ?_⟩
    rw [List.cons_append, List.append_assoc, ← same, quoted_append]

theorem apart (h : Outside cs rest) (whole : cs = before ++ rest)
    (literals : StringLiteral cs front literal) :
    before.length ≤ front.length ∨ front.length + literal.length ≤ before.length := by
  induction h generalizing before front with
  | here cs =>
    obtain rfl : before = [] := List.append_left_eq_self.mp whole.symm
    exact .inl (Nat.zero_le _)
  | @plain c cs rest other outside ih =>
    obtain ⟨between, rfl⟩ := outside.suffix
    obtain rfl : before = c :: between := List.append_cancel_right (by simpa using whole.symm)
    obtain ⟨front, rfl, inner⟩ := (stringLiteral_plain other).mp literals
    have := ih rfl inner
    simp only [List.length_cons]
    omega
  | @literal cs rest outside ih =>
    obtain ⟨between, same⟩ := outside.suffix
    obtain rfl : before = '"' :: ((quoted cs).1 ++ between) := by
      have same : before ++ rest = '"' :: ((quoted cs).1 ++ between) ++ rest := by
        rw [← whole, List.cons_append, List.append_assoc, ← same, quoted_append]
      exact List.append_cancel_right same
    rcases stringLiteral_quote.mp literals with ⟨rfl, rfl⟩ | ⟨front, rfl, inner⟩
    · simp only [List.length_nil, List.length_cons, List.length_append]
      omega
    · have := ih same inner
      simp only [List.length_cons, List.length_append]
      omega

end Outside

/-- Every place is outside all literals or in one of them. -/
theorem outside_or_inside (before : List Char) :
    Outside (before ++ c :: rest) (c :: rest) ∨ ∃ front literal,
      StringLiteral (before ++ c :: rest) front literal ∧ front.length ≤ before.length ∧
        before.length < front.length + literal.length := by
  induction size : before.length using Nat.strong_induction_on generalizing before with
  | _ n ih =>
    subst size
    cases before with
    | nil => exact .inl (.here _)
    | cons first before =>
      by_cases quote : first = '"'
      · subst quote
        generalize text : before ++ c :: rest = cs at ih
        have closes := closes_quoted cs
        rw [List.cons_append, text]
        rw [← quoted_append cs] at text
        rcases List.append_eq_append_iff.mp text.symm with
          ⟨between, rfl, behind⟩ | ⟨_ | ⟨d, inside⟩, body, behind⟩
        · -- The literal ends in front of the character.
          have shorter : between.length < ('"' :: ((quoted cs).1 ++ between)).length := by
            simp only [List.length_cons, List.length_append]
            omega
          rcases ih between.length shorter between rfl with
            outside | ⟨front, literal, literals, starts, ends⟩
          · exact .inl (.literal (behind ▸ outside))
          · refine .inr ⟨_, literal, stringLiteral_quote.mpr (.inr ⟨front, rfl, ?_⟩), ?_⟩
            · exact behind ▸ literals
            · simp only [List.length_cons, List.length_append]
              omega
        · exact .inl (.literal (behind ▸ .here _))
        · refine .inr ⟨[], _, stringLiteral_quote.mpr (.inl ⟨rfl, rfl⟩), ?_⟩
          simp [body]
      · have shorter : before.length < (first :: before).length := Nat.lt_succ_self _
        rcases ih before.length shorter before rfl with outside | ⟨front, literal, literals, span⟩
        · exact .inl (.plain quote outside)
        · refine .inr ⟨first :: front, literal, .plain quote literals, ?_⟩
          simp only [List.length_cons]
          omega

theorem outside_iff (other : c ≠ '"') : Outside (before ++ c :: rest) (c :: rest) ↔
    ∀ front literal, StringLiteral (before ++ c :: rest) front literal →
      before.length < front.length ∨ front.length + literal.length ≤ before.length := by
  constructor
  · intro outside front literal literals
    rcases outside.apart rfl literals with begins | ends
    · refine .inl (Nat.lt_of_le_of_ne begins fun same => ?_)
      obtain ⟨behind, whole⟩ := literals.opens
      exact other (List.cons.inj (List.append_inj whole same).2).1
    · exact .inr ends
  · intro apart
    refine (outside_or_inside before).resolve_right ?_
    rintro ⟨front, literal, literals, begins, ends⟩
    have := apart front literal literals
    omega

namespace Lexeme

/-- Among these steps of the scan is a string literal, with what stands in front of it. -/
def QuotedAt (steps : List Part) (front literal : List Char) : Prop :=
  ∃ before after, steps = before ++ ⟨literal, some (.quoted literal)⟩ :: after ∧
    before.flatMap Part.source = front

theorem quotedAt_cons {part : Part} {steps : List Part} :
    QuotedAt (part :: steps) front literal ↔
      (front = [] ∧ part = ⟨literal, some (.quoted literal)⟩) ∨
        ∃ between, front = part.source ++ between ∧ QuotedAt steps between literal := by
  constructor
  · rintro ⟨_ | ⟨first, before⟩, after, same, rfl⟩
    · exact .inl ⟨rfl, (List.cons.inj same).1⟩
    · obtain ⟨rfl, rfl⟩ := List.cons.inj same
      exact .inr ⟨_, rfl, before, after, rfl, rfl⟩
  · rintro (⟨rfl, rfl⟩ | ⟨_, rfl, before, after, rfl, rfl⟩)
    · exact ⟨[], steps, rfl, rfl⟩
    · exact ⟨part :: before, after, rfl, rfl⟩

/-- The string literals are the lexemes that begin with a quote. -/
theorem quotedAt_parts : QuotedAt (parts cs) front literal ↔ StringLiteral cs front literal := by
  fun_induction parts cs generalizing front with
  | case1 =>
    constructor
    · rintro ⟨before, after, same, _⟩
      simp at same
    · intro literals
      cases literals
  | case2 c rest ih =>
    have reads := first_reads c rest
    rw [quotedAt_cons]
    rcases reads.quoted_or_plain with ⟨behind, text, left, part⟩ | ⟨plain, other⟩
    · obtain ⟨rfl, rfl⟩ := List.cons.inj text
      rw [stringLiteral_quote, ← left, part]
      simp only [ih, Part.mk.injEq, Option.some.injEq, Lexeme.quoted.injEq, and_self,
        eq_comm (a := literal), List.cons_append]
    · rw [← reads.append, stringLiteral_append plain]
      simp only [ih]
      refine or_iff_right ?_
      rintro ⟨_, same⟩
      exact other literal (by rw [same])

def literal? : Lexeme → Option (List Char)
  | quoted text => some text
  | _ => none

theorem filterMap_literal_scan (cs : List Char) :
    (scan cs).filterMap literal? = stringLiterals cs := by
  fun_induction parts cs with
  | case1 => rw [scan, stringLiterals_nil, List.filterMap_nil]
  | case2 c rest ih =>
    have reads := first_reads c rest
    rw [scan_first, List.filterMap_append, ih]
    rcases reads.quoted_or_plain with ⟨behind, text, left, part⟩ | ⟨plain, other⟩
    · rw [text, stringLiterals_quote, left, part]
      rfl
    · have skipped := stringLiterals_append plain (first c rest).2
      rw [reads.append] at skipped
      rw [skipped]
      cases found : (first c rest).1.lexeme? with
      | none => rfl
      | some lexeme =>
        cases lexeme with
        | quoted text => exact absurd found (other text)
        | _ => rfl

end Lexeme

end Worksheet.Formula
