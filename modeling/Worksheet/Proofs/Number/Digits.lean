import Mathlib.Data.List.Induction
import Worksheet.Text

/-! Numerals as they may be written. The numerals of a number are its digits behind any number of
zeros, so its own digits are the shortest of them, and words are read from those numerals alone
whose number fits in a word. -/
namespace Worksheet.Numeral

variable {digits : List Char} {n : Nat} {d : Char} {w : UInt64}

/-- The digits write the number in base ten. -/
structure Writes (digits : List Char) (n : Nat) : Prop where
  filled : digits ≠ []
  digit : ∀ d ∈ digits, d.isDigit
  value : value digits = n

@[simp] theorem value_nil : value [] = 0 := rfl

theorem writes_ofNat (n : Nat) : Writes (ofNat n) n :=
  ⟨ofNat_ne_nil n, List.all_eq_true.mp (all_isDigit_ofNat n), value_ofNat n⟩

theorem word?_eq_some_iff : word? digits = some w ↔ Writes digits w.toNat := by
  constructor
  · intro read
    unfold word? at read
    split at read
    next form =>
      obtain ⟨filled, digit, bound⟩ := form
      obtain rfl := Option.some.inj read
      exact ⟨filled, List.all_eq_true.mp digit, (UInt64.toNat_ofNat_of_lt' bound).symm⟩
    next => cases read
  · rintro ⟨filled, digit, value⟩
    have bound : w.toNat < limit := w.toNat_lt
    have all : digits.all Char.isDigit := List.all_eq_true.mpr digit
    simp [word?, filled, all, value, bound]

theorem digit_value (digit : d.isDigit) :
    d.toNat - '0'.toNat < 10 ∧ (d.toNat - '0'.toNat).digitChar = d := by
  have zero : '0'.toNat = 48 := rfl
  have nine : '9'.toNat = 57 := rfl
  have range := Char.isDigit_iff_toNat.mp digit
  have small : d.toNat - '0'.toNat < 10 := by omega
  refine ⟨small, Char.toNat_inj.mp ?_⟩
  rw [Nat.toNat_digitChar_of_lt_ten small]
  omega

theorem value_concat (front : List Char) (d : Char) :
    value (front ++ [d]) = 10 * value front + (d.toNat - '0'.toNat) := by
  simp only [value, Nat.ofDigitChars_append, Nat.ofDigitChars_cons, Nat.ofDigitChars_nil]

theorem ofNat_small (small : n < 10) : ofNat n = [n.digitChar] := Nat.toDigits_of_lt_base small

theorem ofNat_concat {front last : Nat} (filled : 0 < front) (small : last < 10) :
    ofNat (10 * front + last) = ofNat front ++ [last.digitChar] := by
  rw [← ofNat_small small]
  exact (Nat.toDigits_append_toDigits (by decide) filled small).symm

theorem exists_zeros (filled : digits ≠ []) (digit : ∀ d ∈ digits, d.isDigit) :
    ∃ zeros, digits = List.replicate zeros '0' ++ ofNat (value digits) := by
  induction digits using List.reverseRecOn with
  | nil => exact absurd rfl filled
  | append_singleton front d ih =>
    obtain ⟨small, char⟩ := digit_value (digit d (by simp))
    rw [value_concat]
    by_cases first : front = []
    · refine ⟨0, ?_⟩
      rw [first, value_nil, Nat.mul_zero, Nat.zero_add, ofNat_small small, char]
      rfl
    · obtain ⟨zeros, written⟩ := ih first fun c member => digit c (by simp [member])
      rcases Nat.eq_zero_or_pos (value front) with none | positive
      · -- Everything in front of the last digit is a zero.
        rw [none] at written ⊢
        refine ⟨zeros + 1, ?_⟩
        rw [Nat.mul_zero, Nat.zero_add, ofNat_small small, char, written, List.replicate_succ']
        rfl
      · refine ⟨zeros, ?_⟩
        rw [ofNat_concat positive small, char, ← List.append_assoc, ← written]

/-- The numerals of a number are its digits behind any number of zeros. -/
theorem writes_iff : Writes digits n ↔ ∃ zeros, digits = List.replicate zeros '0' ++ ofNat n := by
  constructor
  · rintro ⟨filled, digit, rfl⟩
    exact exists_zeros filled digit
  · rintro ⟨zeros, rfl⟩
    obtain ⟨filled, digit, own⟩ := writes_ofNat n
    refine ⟨by simp [filled], fun d member => ?_, ?_⟩
    · rcases List.mem_append.mp member with zero | member
      · rw [List.eq_of_mem_replicate zero]
        rfl
      · exact digit d member
    · rw [value, Nat.ofDigitChars_append, Nat.ofDigitChars_replicate_zero, Nat.mul_zero]
      exact own

theorem Writes.shortest (h : Writes digits n) :
    digits = ofNat n ∨ (ofNat n).length < digits.length := by
  obtain ⟨zeros, rfl⟩ := writes_iff.mp h
  cases zeros with
  | zero => exact .inl rfl
  | succ zeros => exact .inr (by simp)

end Worksheet.Numeral
