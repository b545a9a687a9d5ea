import Worksheet.Proofs.Formula.Numeral
import Worksheet.Proofs.Number.Rounding

/-! The decimals that numbers are shown as. Whatever grid the shortest one is found on, the number
is the nearest one to it. The texts are decimal numerals, whose value is the number or a decimal
that is rounded to it. -/
namespace Worksheet.Binary64

open Number (wholePower wholePower_eq wholePower_pos)

variable {level significand multiple : Nat} {grid : Int} {d : Decimal}

theorem quarterUnit_pos (exponent grid : Int) : 0 < (quarterUnit exponent grid).2 :=
  Nat.mul_pos (wholePower_pos two_pos _) (wholePower_pos (by decide) _)

theorem quarterUnit_eq (exponent grid : Int) : ((quarterUnit exponent grid).1 : ℚ) =
    2 ^ (exponent - 2) / 10 ^ grid * (quarterUnit exponent grid).2 := by
  have ten : 0 < 10 := by decide
  have opposite : 2 - exponent = -(exponent - 2) := (neg_sub exponent 2).symm
  simp only [quarterUnit, Nat.cast_mul]
  rw [wholePower_eq two_pos (exponent - 2), wholePower_eq ten grid, opposite]
  push_cast
  field_simp

theorem interval_low (normal : Normal level significand) (bound : significand < 2 * leadingBit)
    (filled : 0 < significand) :
    2 * ((interval significand (leastExponent + level)).low * 2 ^ (leastExponent + level - 2) : ℚ) =
      magnitude (level * leadingBit + significand - 1) +
        magnitude (level * leadingBit + significand) := by
  have here := magnitude_eq normal bound.le
  have half : (2 : ℚ) ^ (leastExponent + level) = 4 * 2 ^ (leastExponent + level - 2) := by
    rw [zpow_sub₀ two_ne_zero]
    norm_num
    ring
  by_cases power : significand = leadingBit ∧ leastExponent < leastExponent + level
  · obtain ⟨rfl, higher⟩ := power
    obtain ⟨lower, rfl⟩ := Nat.exists_eq_succ_of_ne_zero (show level ≠ 0 by omega)
    have before : lower.succ * leadingBit + leadingBit - 1 =
        lower * leadingBit + (2 * leadingBit - 1) := by
      rw [leadingBit_eq]
      omega
    have normal : Normal lower (2 * leadingBit - 1) := .inl (by rw [leadingBit_eq]; omega)
    have unit : (2 : ℚ) ^ (leastExponent + lower) = 2 * 2 ^ (leastExponent + lower.succ - 2) := by
      rw [← zpow_one_add₀ two_ne_zero]
      congr 1
      push_cast
      ring
    rw [here, before, magnitude_eq normal (Nat.sub_le ..), interval, if_pos ⟨rfl, higher⟩, half, unit,
      Nat.cast_sub (by rw [leadingBit_eq]; omega), Nat.cast_sub (by rw [leadingBit_eq]; omega)]
    push_cast
    ring
  · have lower : Normal level (significand - 1) := by
      simp only [Normal] at *
      omega
    rw [here, magnitude_pred lower filled bound.le, interval, if_neg power, half,
      Nat.cast_sub (show 2 ≤ 4 * significand by omega)]
    push_cast
    ring

theorem interval_high (normal : Normal level significand) (bound : significand < 2 * leadingBit) :
    2 * ((interval significand (leastExponent + level)).high * 2 ^ (leastExponent + level - 2) : ℚ) =
      magnitude (level * leadingBit + significand) +
        magnitude (level * leadingBit + significand + 1) := by
  rw [magnitude_succ, exponentOf_eq normal bound, magnitude_eq normal bound.le, interval,
    zpow_sub₀ two_ne_zero]
  push_cast
  ring

section Units

variable (exponent grid : Int) (n multiple : Nat)

theorem quarterUnit_scaled : (n * (quarterUnit exponent grid).1 : ℚ) =
    n * 2 ^ (exponent - 2) / 10 ^ grid * (quarterUnit exponent grid).2 := by
  rw [quarterUnit_eq]
  ring

theorem quarters_le : n * (quarterUnit exponent grid).1 ≤ multiple * (quarterUnit exponent grid).2 ↔
    n * 2 ^ (exponent - 2) ≤ Decimal.value ⟨multiple, grid⟩ := by
  have filled : (0 : ℚ) < 10 ^ grid := by positivity
  have positive : (0 : ℚ) < (quarterUnit exponent grid).2 := by
    exact_mod_cast quarterUnit_pos exponent grid
  rw [Decimal.value, ← div_le_iff₀ filled, ← mul_le_mul_iff_of_pos_right positive,
    ← quarterUnit_scaled]
  exact_mod_cast Iff.rfl

theorem le_quarters : multiple * (quarterUnit exponent grid).2 ≤ n * (quarterUnit exponent grid).1 ↔
    Decimal.value ⟨multiple, grid⟩ ≤ n * 2 ^ (exponent - 2) := by
  have filled : (0 : ℚ) < 10 ^ grid := by positivity
  have positive : (0 : ℚ) < (quarterUnit exponent grid).2 := by
    exact_mod_cast quarterUnit_pos exponent grid
  rw [Decimal.value, ← le_div_iff₀ filled, ← mul_le_mul_iff_of_pos_right positive,
    ← quarterUnit_scaled]
  exact_mod_cast Iff.rfl

end Units

/-- What the interval admits is rounded to the number. -/
theorem admits_halfway (normal : Normal level significand) (bound : significand < 2 * leadingBit)
    (filled : 0 < significand)
    (fits : (interval significand (leastExponent + level)).admits
      (quarterUnit (leastExponent + level) grid) multiple) :
    Halfway (Decimal.value ⟨multiple, grid⟩) (level * leadingBit + significand) := by
  have low := interval_low normal bound filled
  have high := interval_high normal bound
  have even : (interval significand (leastExponent + level)).closed ↔
      (level * leadingBit + significand) % 2 = 0 := by
    simp only [interval, leadingBit_eq, decide_eq_true_eq]
    omega
  generalize interval significand (leastExponent + level) = bounds at *
  simp only [Interval.admits] at fits
  split_ifs at fits with closed
  · simp only [Bool.and_eq_true, decide_eq_true_eq, quarters_le, le_quarters] at fits
    exact ⟨by linarith, by linarith, fun _ => even.mp closed⟩
  · simp only [Bool.and_eq_true, decide_eq_true_eq, ← not_le, quarters_le, le_quarters] at fits
    obtain ⟨above, below⟩ := fits
    rw [not_le] at above below
    refine ⟨by linarith, by linarith, ?_⟩
    rintro (tie | tie) <;> linarith

/-- A neighbour on a grid is taken only where it is rounded to the number. -/
theorem onGrid?_halfway (normal : Normal level significand) (bound : significand < 2 * leadingBit)
    (filled : 0 < significand) (found : onGrid? significand (leastExponent + level) grid = some d) :
    Halfway d.value (level * leadingBit + significand) := by
  simp only [onGrid?] at found
  split_ifs at found with below above
  · obtain rfl := Option.some.inj found
    exact admits_halfway normal bound filled (Bool.and_eq_true_iff.mp below).1
  · obtain rfl := Option.some.inj found
    exact admits_halfway normal bound filled above

theorem exact_value (significand : Nat) (exponent : Int) :
    (exact significand exponent).value = significand * 2 ^ exponent := by
  unfold exact
  split_ifs with nonneg
  · obtain ⟨n, rfl⟩ := Int.eq_ofNat_of_zero_le nonneg
    simp [Decimal.value, wholePower]
  · obtain ⟨n, rfl⟩ : ∃ n : Nat, exponent = -n := ⟨exponent.natAbs, by omega⟩
    have ten : (10 : ℚ) ^ n = 2 ^ n * 5 ^ n := by rw [← mul_pow]; norm_num
    simp only [Decimal.value, wholePower, neg_neg, Int.toNat_natCast, Nat.pow_eq, zpow_neg,
      zpow_natCast, ten]
    push_cast
    field_simp

/-- The shortest decimal is rounded to the number. -/
theorem shortest_nearest (normal : Normal level significand) (bound : significand < 2 * leadingBit)
    (filled : 0 < significand) :
    Nearest (shortest significand (leastExponent + level)).value
      (level * leadingBit + significand) := by
  unfold shortest
  cases found : (grids significand (leastExponent + level)).findSome?
      (onGrid? significand (leastExponent + level)) with
  | none =>
    rw [Option.getD_none, exact_value, ← magnitude_eq normal bound.le]
    exact nearest_self _
  | some d =>
    obtain ⟨grid, _, found⟩ := List.exists_of_findSome?_eq_some found
    exact (onGrid?_halfway normal bound filled found).nearest

theorem shortest_filled (normal : Normal level significand) (bound : significand < 2 * leadingBit)
    (filled : 0 < significand) : 0 < (shortest significand (leastExponent + level)).coefficient := by
  refine Nat.pos_of_ne_zero fun none => ?_
  have zero : (shortest significand (leastExponent + level)).value = magnitude 0 := by
    rw [Decimal.value, none, magnitude_zero]
    simp
  have := (shortest_nearest normal bound filled).unique (zero ▸ nearest_self 0)
  omega

theorem integer?_eq_some {exponent : Int} {n : Nat} :
    integer? significand exponent = some n ↔ (n : ℚ) = significand * 2 ^ exponent := by
  simp only [integer?]
  by_cases nonneg : 0 ≤ exponent
  · obtain ⟨shift, rfl⟩ := Int.eq_ofNat_of_zero_le nonneg
    rw [if_pos nonneg, Option.some.injEq, zpow_natCast, eq_comm]
    simp only [wholePower, Int.toNat_natCast, Nat.pow_eq]
    exact_mod_cast Iff.rfl
  · obtain ⟨shift, rfl⟩ : ∃ shift : Nat, exponent = -shift := ⟨exponent.natAbs, by omega⟩
    have positive : 0 < 2 ^ shift := by positivity
    have whole : (n : ℚ) = significand * 2 ^ (-shift : Int) ↔ n * 2 ^ shift = significand := by
      rw [zpow_neg, zpow_natCast, ← div_eq_mul_inv, eq_div_iff (by positivity)]
      exact_mod_cast Iff.rfl
    simp only [if_neg nonneg, wholePower, neg_neg, Int.toNat_natCast, Nat.pow_eq, whole]
    split_ifs with divides
    · rw [Option.some.injEq, eq_comm, Nat.eq_div_iff_mul_eq_left positive.ne'
        (Nat.dvd_of_mod_eq_zero divides)]
      exact eq_comm
    · simp only [false_iff]
      rintro rfl
      exact divides (Nat.mul_mod_left ..)

end Worksheet.Binary64

namespace Worksheet

namespace Formula.DecimalNumeral

/-- The number that a numeral denotes. -/
def value (n : DecimalNumeral) : ℚ :=
  (if n.negative then -1 else 1) *
    (Nat.ofDigitChars 10 (n.whole ++ n.fraction.getD []) 0 / 10 ^ (n.fraction.getD []).length)

/-- The digits before the point begin with a zero only where it is the only one. -/
def Plain (n : DecimalNumeral) : Prop := n.whole = ['0'] ∨ n.whole.head? ≠ some '0'

theorem value_eq (n : DecimalNumeral) :
    n.value = (if n.negative then -1 else 1) * n.literal.decimal.value := by
  simp [value, Decimal.value, literal, Literal.decimal, Literal.power, div_eq_mul_inv]

variable {digits whole fraction : List Char}

def integral (digits : List Char) (filled : digits ≠ []) (digit : ∀ c ∈ digits, c.isDigit) :
    DecimalNumeral :=
  ⟨false, digits, none, filled, digit, by simp, by simp⟩

def pointed (whole fraction : List Char) (filled : whole ≠ []) (filled' : fraction ≠ [])
    (digit : ∀ c ∈ whole ++ fraction, c.isDigit) : DecimalNumeral where
  negative := false
  whole := whole
  fraction := some fraction
  whole_ne_nil := filled
  whole_digits c member := digit c (List.mem_append_left _ member)
  fraction_ne_nil := by simpa using filled'
  fraction_digits := by
    rintro _ ⟨⟩ c member
    exact digit c (List.mem_append_right _ member)

theorem text_integral (filled : digits ≠ []) (digit : ∀ c ∈ digits, c.isDigit) :
    (integral digits filled digit).text = digits := by
  simp [integral, text, literal, Literal.source]

theorem value_integral (filled : digits ≠ []) (digit : ∀ c ∈ digits, c.isDigit) :
    (integral digits filled digit).value = Nat.ofDigitChars 10 digits 0 := by
  simp [integral, value]

theorem text_pointed (filled : whole ≠ []) (filled' : fraction ≠ [])
    (digit : ∀ c ∈ whole ++ fraction, c.isDigit) :
    (pointed whole fraction filled filled' digit).text = whole ++ '.' :: fraction := by
  simp [pointed, text, literal, Literal.source]

theorem value_pointed (filled : whole ≠ []) (filled' : fraction ≠ [])
    (digit : ∀ c ∈ whole ++ fraction, c.isDigit) :
    (pointed whole fraction filled filled' digit).value =
      Nat.ofDigitChars 10 (whole ++ fraction) 0 / 10 ^ fraction.length := by
  simp [pointed, value]

end Formula.DecimalNumeral

namespace Decimal

open Formula (DecimalNumeral)
open Formula.DecimalNumeral (integral pointed)

theorem toDigits_head {n : Nat} (filled : 0 < n) : (Nat.toDigits 10 n).head? ≠ some '0' := by
  induction n using Nat.strong_induction_on with
  | _ n ih =>
    rcases Nat.lt_or_ge n 10 with less | more
    · have digit : ∀ n < 10, 0 < n → n.digitChar ≠ '0' := by decide
      simpa [Nat.toDigits_of_lt_base less] using digit n less filled
    · rw [Nat.toDigits_of_base_le (by decide) more,
        List.head?_append_of_ne_nil _ Nat.toDigits_ne_nil]
      exact ih (n / 10) (by omega) (by omega)

theorem isDigit_of_mem_zeros {c : Char} {n : Nat} (member : c ∈ List.replicate n '0') :
    c.isDigit := by
  rw [List.eq_of_mem_replicate member]
  rfl

section Shapes

variable {digits : List Char}

theorem zeros_behind (filled : digits ≠ []) (digit : ∀ c ∈ digits, c.isDigit)
    (head : digits.head? ≠ some '0') (zeros : Nat) : ∃ n : DecimalNumeral,
      n.negative = false ∧ n.text = digits ++ List.replicate zeros '0' ∧ n.Plain ∧
        n.value = Nat.ofDigitChars 10 digits 0 * 10 ^ zeros := by
  have some : digits ++ List.replicate zeros '0' ≠ [] := by simp [filled]
  have digit : ∀ c ∈ digits ++ List.replicate zeros '0', c.isDigit := by
    intro c member
    exact (List.mem_append.mp member).elim (digit c) isDigit_of_mem_zeros
  refine ⟨integral _ some digit, rfl, DecimalNumeral.text_integral .., .inr ?_, ?_⟩
  · rwa [integral, List.head?_append_of_ne_nil _ filled]
  · rw [DecimalNumeral.value_integral, Nat.ofDigitChars_append, Nat.ofDigitChars_replicate_zero]
    push_cast
    exact mul_comm _ _

theorem point_among (digit : ∀ c ∈ digits, c.isDigit) (head : digits.head? ≠ some '0')
    {shift : Nat} (filled : 0 < shift) (among : shift < digits.length) : ∃ n : DecimalNumeral,
      n.negative = false ∧ n.text = digits.take (digits.length - shift) ++
        '.' :: digits.drop (digits.length - shift) ∧ n.Plain ∧
        n.value = Nat.ofDigitChars 10 digits 0 / 10 ^ shift := by
  have before : digits.take (digits.length - shift) ≠ [] :=
    List.length_pos_iff.mp (by rw [List.length_take]; omega)
  have behind : digits.drop (digits.length - shift) ≠ [] :=
    List.length_pos_iff.mp (by rw [List.length_drop]; omega)
  have whole :
      digits.take (digits.length - shift) ++ digits.drop (digits.length - shift) = digits :=
    List.take_append_drop ..
  refine ⟨pointed _ _ before behind (by rwa [whole]), rfl, DecimalNumeral.text_pointed ..,
    .inr ?_, ?_⟩
  · rw [pointed, List.head?_take, if_neg (by omega)]
    exact head
  · rw [DecimalNumeral.value_pointed, whole, List.length_drop]
    congr 2
    omega

theorem zeros_before (filled : digits ≠ []) (digit : ∀ c ∈ digits, c.isDigit) {shift : Nat}
    (outside : digits.length ≤ shift) : ∃ n : DecimalNumeral,
      n.negative = false ∧
        n.text = '0' :: '.' :: (List.replicate (shift - digits.length) '0' ++ digits) ∧ n.Plain ∧
        n.value = Nat.ofDigitChars 10 digits 0 / 10 ^ shift := by
  have some : List.replicate (shift - digits.length) '0' ++ digits ≠ [] := by simp [filled]
  have digit : ∀ c ∈ ['0'] ++ (List.replicate (shift - digits.length) '0' ++ digits),
      c.isDigit := by
    intro c member
    rcases List.mem_append.mp member with member | member
    · exact isDigit_of_mem_zeros (n := 1) member
    · exact (List.mem_append.mp member).elim isDigit_of_mem_zeros (digit c)
  have shifted : (List.replicate (shift - digits.length) '0' ++ digits).length = shift := by
    rw [List.length_append, List.length_replicate]
    omega
  have none : Nat.ofDigitChars 10 ['0'] 0 = 0 := rfl
  refine ⟨pointed ['0'] _ (by simp) some digit, rfl, DecimalNumeral.text_pointed .., .inl rfl, ?_⟩
  rw [DecimalNumeral.value_pointed, shifted, Nat.ofDigitChars_append, none, Nat.ofDigitChars_append,
    Nat.ofDigitChars_replicate_zero, mul_zero]

end Shapes

/-- Written out, a decimal is a numeral of the same value. -/
theorem positional_numeral {d : Decimal} (filled : 0 < d.coefficient) : ∃ n : DecimalNumeral,
    n.negative = false ∧ n.text = d.positional ∧ n.Plain ∧ n.value = d.value := by
  have digit (c : Char) (member : c ∈ Nat.toDigits 10 d.coefficient) : c.isDigit :=
    Nat.isDigit_of_mem_toDigits (by decide) (by decide) member
  have head := toDigits_head filled
  have coefficient := Nat.ofDigitChars_ten_toDigits (n := d.coefficient)
  have some : Nat.toDigits 10 d.coefficient ≠ [] := Nat.toDigits_ne_nil
  simp only [positional, value]
  generalize Nat.toDigits 10 d.coefficient = digits at *
  rw [← coefficient]
  by_cases nonneg : 0 ≤ d.exponent
  · obtain ⟨zeros, exponent⟩ := Int.eq_ofNat_of_zero_le nonneg
    rw [if_pos nonneg, exponent, Int.toNat_natCast, zpow_natCast]
    exact zeros_behind some digit head zeros
  · obtain ⟨shift, exponent⟩ : ∃ shift : Nat, d.exponent = -shift := ⟨d.exponent.natAbs, by omega⟩
    have places : (-d.exponent).toNat = shift := by omega
    rw [if_neg nonneg, places, exponent, zpow_neg, zpow_natCast, ← div_eq_mul_inv]
    split_ifs with among
    · exact point_among digit head (by omega) among
    · exact zeros_before some digit (not_lt.mp among)

end Decimal

namespace Binary64

open Formula (DecimalNumeral)

variable {level significand : Nat}

/-- A positive number is shown as a numeral that is rounded to it, and as the number itself where it
is an integer that is not too large. -/
theorem magnitudeText_numeral (normal : Normal level significand)
    (bound : significand < 2 * leadingBit) (filled : 0 < significand) :
    ∃ n : DecimalNumeral, n.negative = false ∧
      n.text = magnitudeText significand (leastExponent + level) ∧ n.Plain ∧
      Nearest n.value (level * leadingBit + significand) ∧
      ∀ k : Nat, (k : ℚ) = magnitude (level * leadingBit + significand) → k < 10 ^ 15 →
        n.value = k := by
  have here := magnitude_eq normal bound.le
  unfold magnitudeText
  cases found : (integer? significand (leastExponent + level)).filter (· < Nat.pow 10 15) with
  | some n =>
    obtain ⟨integer, less⟩ := Option.filter_eq_some_iff.mp found
    rw [integer?_eq_some, ← here] at integer
    have positive : 0 < n := by
      have := magnitude_pos (show 0 < level * leadingBit + significand by omega)
      rw [← integer] at this
      exact_mod_cast this
    have digit (c : Char) (member : c ∈ Nat.toDigits 10 n) : c.isDigit :=
      Nat.isDigit_of_mem_toDigits (by decide) (by decide) member
    have value := DecimalNumeral.value_integral Nat.toDigits_ne_nil digit
    rw [Nat.ofDigitChars_ten_toDigits] at value
    refine ⟨.integral _ Nat.toDigits_ne_nil digit, rfl, DecimalNumeral.text_integral ..,
      .inr (Decimal.toDigits_head positive), ?_, fun k same _ => ?_⟩
    · rw [value, integer]
      exact nearest_self _
    · rw [value, integer, same]
  | none =>
    have near := shortest_nearest normal bound filled
    obtain ⟨n, sign, text, plain, value⟩ :=
      Decimal.positional_numeral (shortest_filled normal bound filled)
    refine ⟨n, sign, text, plain, value ▸ near, fun k integer less => ?_⟩
    rw [here, ← integer?_eq_some] at integer
    rw [integer, Option.filter_some, if_pos (by simpa using less)] at found
    exact absurd found (Option.some_ne_none k)

end Binary64

end Worksheet
