import Worksheet.Proofs.Formula.Run

/-! The shape of number literals. All digits of a literal are where the grammar has digits, its
exponent is whole or absent, and no digit follows it. -/
namespace Worksheet.Formula.Literal

inductive Exponent : List Char → Prop where
  | absent : Exponent []
  | unsigned {e : Char} {digits : List Char} : e = 'e' ∨ e = 'E' → digits ≠ [] →
      (∀ d ∈ digits, d.isDigit) → Exponent (e :: digits)
  | signed {e sign : Char} {digits : List Char} : e = 'e' ∨ e = 'E' → isSign sign → digits ≠ [] →
      (∀ d ∈ digits, d.isDigit) → Exponent (e :: sign :: digits)

structure WellFormed (l : Literal) : Prop where
  begins : l.whole ≠ [] ∨ ∃ digits, l.fraction = some digits
  whole : ∀ d ∈ l.whole, d.isDigit
  fraction : ∀ digits, l.fraction = some digits → ∀ d ∈ digits, d.isDigit
  exponent : Exponent l.exponent

def mantissa (l : Literal) : List Char := l.whole ++ (l.fraction.map ('.' :: ·)).getD []

theorem source_eq (l : Literal) : l.source = l.mantissa ++ l.exponent := rfl

variable {cs : List Char} {c : Char}

theorem splitFraction_digits {digits : List Char} (fraction : (splitFraction cs).1 = some digits) :
    ∀ d ∈ digits, d.isDigit := by
  unfold splitFraction at fraction
  split at fraction
  · cases fraction
    exact fun _ => List.mem_takeWhile_imp
  · cases fraction

theorem splitFraction_stop (stop : ∀ d ∈ cs.head?, d.isDigit = false) :
    ∀ d ∈ (splitFraction cs).2.head?, d.isDigit = false := by
  unfold splitFraction
  split
  · exact fun _ => head_dropWhile
  · exact stop

theorem takeWhile_ne_nil (starts : startsDigit cs) : cs.takeWhile Char.isDigit ≠ [] := by
  cases cs with
  | nil => simp [startsDigit] at starts
  | cons d rest =>
    have digit : d.isDigit := by simpa [startsDigit] using starts
    simp [digit]

theorem splitExponent_exponent (cs : List Char) : Exponent (splitExponent cs).1 := by
  have digits (cs : List Char) : ∀ d ∈ cs.takeWhile Char.isDigit, d.isDigit := fun _ =>
    List.mem_takeWhile_imp
  unfold splitExponent
  split
  · exact .absent
  next e rest =>
    split_ifs with letter
    · split
      · exact .absent
      next sign rest =>
        split_ifs with signed unsigned
        · obtain ⟨sign, starts⟩ := Bool.and_eq_true_iff.mp signed
          exact .signed letter sign (takeWhile_ne_nil starts) (digits rest)
        · exact .unsigned letter (takeWhile_ne_nil (by simpa [startsDigit])) (digits (sign :: rest))
        · exact .absent
    · exact .absent

theorem splitExponent_stop (stop : ∀ d ∈ cs.head?, d.isDigit = false) :
    ∀ d ∈ (splitExponent cs).2.head?, d.isDigit = false := by
  unfold splitExponent
  split
  · exact stop
  next e rest =>
    split_ifs with letter
    · split
      · exact stop
      next sign rest =>
        split_ifs
        · exact fun _ => head_dropWhile
        · exact fun _ => head_dropWhile
        · exact stop
    · exact stop

theorem isSign_iff : isSign c ↔ c = '+' ∨ c = '-' := by simp [isSign]

theorem Exponent.split_digits {exponent : List Char} (h : Exponent exponent)
    (filled : exponent ≠ []) (rest : List Char) : splitExponent (exponent ++ rest) =
      (exponent ++ rest.takeWhile Char.isDigit, rest.dropWhile Char.isDigit) := by
  cases h with
  | absent => exact absurd rfl filled
  | @unsigned e digits letter more all =>
    have taken : (digits ++ rest).takeWhile Char.isDigit = digits ++ rest.takeWhile Char.isDigit :=
      List.takeWhile_append_of_pos all
    have left : (digits ++ rest).dropWhile Char.isDigit = rest.dropWhile Char.isDigit :=
      List.dropWhile_append_of_pos all
    obtain ⟨d, behind, rfl⟩ := List.exists_cons_of_ne_nil more
    have digit : d.isDigit := all d List.mem_cons_self
    have sign : isSign d = false := by
      refine Bool.eq_false_iff.mpr fun sign => ?_
      rcases isSign_iff.mp sign with rfl | rfl <;> exact absurd digit (by decide)
    rw [List.cons_append] at taken left
    simp [splitExponent, letter, sign, digit, taken, left]
  | @signed e sign digits letter signed more all =>
    have taken : (digits ++ rest).takeWhile Char.isDigit = digits ++ rest.takeWhile Char.isDigit :=
      List.takeWhile_append_of_pos all
    have left : (digits ++ rest).dropWhile Char.isDigit = rest.dropWhile Char.isDigit :=
      List.dropWhile_append_of_pos all
    obtain ⟨d, behind, rfl⟩ := List.exists_cons_of_ne_nil more
    have starts : startsDigit (d :: behind ++ rest) := all d List.mem_cons_self
    rw [List.cons_append] at taken left starts
    simp [splitExponent, letter, signed, starts, taken, left]

theorem split_begins (h : starts cs) :
    (split cs).1.whole ≠ [] ∨ ∃ digits, (split cs).1.fraction = some digits := by
  cases cs with
  | nil => simp [starts] at h
  | cons c rest =>
    rcases Bool.or_eq_true_iff.mp h with digit | point
    · exact .inl (by simp [split, digit])
    · obtain ⟨point, _⟩ := Bool.and_eq_true_iff.mp point
      obtain rfl := of_decide_eq_true point
      exact .inr ⟨_, rfl⟩

theorem split_wellFormed (h : starts cs) : WellFormed (split cs).1 where
  begins := split_begins h
  whole _ := List.mem_takeWhile_imp
  fraction _ := splitFraction_digits
  exponent := splitExponent_exponent _

theorem split_stop (cs : List Char) : ∀ d ∈ (split cs).2.head?, d.isDigit = false :=
  splitExponent_stop (splitFraction_stop fun _ => head_dropWhile)

theorem WellFormed.mantissa_ne_nil {l : Literal} (h : l.WellFormed) : l.mantissa ≠ [] := by
  rcases h.begins with whole | ⟨digits, fraction⟩
  · simp [mantissa, whole]
  · simp [mantissa, fraction]

theorem WellFormed.mem_mantissa {l : Literal} (h : l.WellFormed) (member : c ∈ l.mantissa) :
    c.isDigit ∨ c = '.' := by
  rw [mantissa, List.mem_append] at member
  rcases member with whole | fraction
  · exact .inl (h.whole c whole)
  · cases digits : l.fraction with
    | none => simp [digits] at fraction
    | some digits' =>
      rw [digits, Option.map_some, Option.getD_some, List.mem_cons] at fraction
      exact fraction.symm.imp_left (h.fraction _ digits c)

theorem WellFormed.not_isNameStart {l : Literal} (h : l.WellFormed) (member : c ∈ l.mantissa) :
    ¬isNameStart c := by
  rcases h.mem_mantissa member with digit | rfl
  · exact not_isNameStart_of_isDigit digit
  · decide

theorem Exponent.mem {exponent : List Char} (h : Exponent exponent) (member : c ∈ exponent) :
    c = 'e' ∨ c = 'E' ∨ c = '+' ∨ c = '-' ∨ c.isDigit := by
  cases h with
  | absent => simp at member
  | unsigned letter _ digits =>
    rcases List.mem_cons.mp member with rfl | member
    · exact letter.imp_right .inl
    · simp [digits c member]
  | signed letter sign _ digits =>
    rcases List.mem_cons.mp member with rfl | member
    · exact letter.imp_right .inl
    · rcases List.mem_cons.mp member with rfl | member
      · exact .inr (.inr ((isSign_iff.mp sign).imp_right .inl))
      · simp [digits c member]

theorem WellFormed.plain {l : Literal} (h : l.WellFormed) : '"' ∉ l.source := by
  rw [source_eq, List.mem_append]
  rintro (member | member)
  · exact absurd (h.mem_mantissa member) (by decide)
  · exact absurd (h.exponent.mem member) (by decide)

end Worksheet.Formula.Literal
