import Mathlib.Algebra.Order.Field.Basic
import Mathlib.Data.Nat.Cast.Order.Field
import Mathlib.Tactic.FieldSimp
import Worksheet.Proofs.Number.Rank

/-! Rounding in exact arithmetic is rounding to the nearest number, ties to even. -/
namespace Worksheet

theorem Number.wholePower_eq {base : Nat} (positive : 0 < base) (exponent : Int) :
    (wholePower base exponent : ℚ) = base ^ exponent * wholePower base (-exponent) := by
  have filled : (base : ℚ) ≠ 0 := by exact_mod_cast positive.ne'
  obtain ⟨n, rfl | rfl⟩ := exponent.eq_nat_or_neg
  · simp [wholePower]
  · simp [wholePower, filled]

theorem Number.wholePower_pos {base : Nat} (positive : 0 < base) (exponent : Int) :
    0 < wholePower base exponent := Nat.pow_pos positive

namespace Binary64

open Number (wholePower wholePower_eq wholePower_pos)

variable {num den : Nat}

theorem scaled_eq (num den : Nat) (exponent : Int) :
    ((scaled num den exponent).1 : ℚ) / (scaled num den exponent).2 =
      num / den / 2 ^ exponent := by
  have filled : (wholePower 2 (-exponent) : ℚ) ≠ 0 := by
    exact_mod_cast (wholePower_pos two_pos (-exponent)).ne'
  simp only [scaled, Nat.cast_mul]
  rw [wholePower_eq two_pos exponent]
  push_cast
  field_simp

theorem scaled_pos (num : Nat) (positive : 0 < den) (exponent : Int) :
    0 < (scaled num den exponent).2 := Nat.mul_pos positive (wholePower_pos two_pos exponent)

/-- The fraction is at most half from the integer, and only where that is even is it just half. -/
structure Half (u : ℚ) (n : Nat) : Prop where
  low : 2 * (n : ℚ) - 1 ≤ 2 * u
  high : 2 * u ≤ 2 * n + 1
  tie : 2 * u = 2 * n - 1 ∨ 2 * u = 2 * n + 1 → n % 2 = 0

namespace Half

variable {u : ℚ} {m n : Nat}

theorem le_of_lt (h : Half u n) (less : u < m) : n ≤ m := by
  have low := h.low
  have close : (n : ℚ) < m + 1 := by linarith
  exact Nat.lt_succ_iff.mp (by exact_mod_cast close)

theorem ge_of_le (h : Half u n) (le : (m : ℚ) ≤ u) : m ≤ n := by
  have high := h.high
  have close : (m : ℚ) < n + 1 := by linarith
  exact Nat.lt_succ_iff.mp (by exact_mod_cast close)

end Half

theorem roundHalfEven_half (num : Nat) (positive : 0 < den) :
    Half (num / den) (roundHalfEven num den) := by
  have positive' : (0 : ℚ) < den := by exact_mod_cast positive
  have split : (num / den : ℚ) = (num / den : Nat) + (num % den : Nat) / den := by
    have whole : (den * (num / den : Nat) + (num % den : Nat) : ℚ) = num := by
      exact_mod_cast Nat.div_add_mod num den
    rw [← whole]
    field_simp
  have below : ((num % den : Nat) : ℚ) / den < 1 := by
    rw [div_lt_one positive']
    exact_mod_cast Nat.mod_lt num positive
  have above : (0 : ℚ) ≤ ((num % den : Nat) : ℚ) / den := by positivity
  have least : 2 * (num % den) < den ↔ 2 * (((num % den : Nat) : ℚ) / den) < 1 := by
    rw [← mul_div_assoc, div_lt_one positive']
    exact_mod_cast Iff.rfl
  have half : 2 * (num % den) = den ↔ 2 * (((num % den : Nat) : ℚ) / den) = 1 := by
    rw [← mul_div_assoc, div_eq_one_iff_eq positive'.ne']
    exact_mod_cast Iff.rfl
  rw [split]
  simp only [roundHalfEven, least, half]
  generalize ((num % den : Nat) : ℚ) / den = rest at *
  split_ifs with down
  · refine ⟨by linarith, by rcases down with down | down <;> linarith, ?_⟩
    rintro (tie | tie)
    · linarith
    · exact down.elim (fun down => by linarith) And.right
  · obtain ⟨notLess, notEven⟩ := not_or.mp down
    refine ⟨?_, ?_, ?_⟩ <;> rw [Nat.cast_succ]
    · linarith
    · linarith
    rintro (tie | tie)
    · have odd : ¬num / den % 2 = 0 := fun even => notEven ⟨by linarith, even⟩
      omega
    · linarith

theorem log2_bounds {n : Nat} (filled : 0 < n) :
    (2 : ℚ) ^ (n.log2 : Int) ≤ n ∧ (n : ℚ) < 2 ^ ((n.log2 : Int) + 1) := by
  rw [zpow_add_one₀ two_ne_zero, zpow_natCast, ← pow_succ]
  exact ⟨by exact_mod_cast Nat.log2_self_le filled.ne', by exact_mod_cast Nat.lt_log2_self⟩

theorem binaryOrder_spec (filled : 0 < num) (positive : 0 < den) :
    (2 : ℚ) ^ binaryOrder num den ≤ num / den ∧
      (num / den : ℚ) < 2 ^ (binaryOrder num den + 1) := by
  have positive' : (0 : ℚ) < den := by exact_mod_cast positive
  obtain ⟨low, high⟩ := log2_bounds filled
  obtain ⟨low', high'⟩ := log2_bounds positive
  generalize estimate : (num.log2 : Int) - den.log2 = order
  have above : (num / den : ℚ) < 2 ^ (order + 1) := by
    rw [div_lt_iff₀ positive']
    calc (num : ℚ) < 2 ^ ((num.log2 : Int) + 1) := high
      _ = 2 ^ (order + 1) * 2 ^ (den.log2 : Int) := by
        rw [← zpow_add₀ two_ne_zero]
        congr 1
        omega
      _ ≤ 2 ^ (order + 1) * den := by gcongr
  have below : (2 : ℚ) ^ (order - 1) ≤ num / den := by
    rw [le_div_iff₀ positive']
    calc (2 : ℚ) ^ (order - 1) * den ≤ 2 ^ (order - 1) * 2 ^ ((den.log2 : Int) + 1) := by gcongr
      _ = 2 ^ (num.log2 : Int) := by
        rw [← zpow_add₀ two_ne_zero]
        congr 1
        omega
      _ ≤ num := low
  have compare : (scaled num den order).2 ≤ (scaled num den order).1 ↔
      (2 : ℚ) ^ order ≤ num / den := by
    have filled : (0 : ℚ) < (scaled num den order).2 := by
      exact_mod_cast scaled_pos num positive order
    have unit : (0 : ℚ) < 2 ^ order := by positivity
    rw [← one_le_div unit, ← scaled_eq, one_le_div filled, Nat.cast_le]
  simp only [binaryOrder, estimate]
  split_ifs with fits
  · exact ⟨compare.mp fits, above⟩
  · rw [sub_add_cancel]
    exact ⟨below, not_le.mp (mt compare.mpr fits)⟩

variable {level significand : Nat} {v : ℚ}

/-- Rounding a value in units of its last place gives the rank of the nearest number. -/
theorem halfway_of_half (normal : Normal level significand) (bound : significand ≤ 2 * leadingBit)
    (half : Half (v / 2 ^ (leastExponent + level)) significand) (nonneg : 0 ≤ v)
    (top : level = 0 ∨ leadingBit * 2 ^ (leastExponent + level) ≤ v) :
    Halfway v (level * leadingBit + significand) := by
  have unit : (2 : ℚ) ^ (leastExponent + level) ≤
      2 ^ exponentOf (level * leadingBit + significand) :=
    zpow_le_zpow_right₀ one_le_two (le_exponentOf normal)
  have here := magnitude_eq normal bound
  have behind := magnitude_succ (level * leadingBit + significand)
  have positive : (0 : ℚ) < 2 ^ (leastExponent + level) := by positivity
  have before (lower : Normal level (significand - 1)) (filled : 0 < significand) :=
    magnitude_pred lower filled bound
  generalize (2 : ℚ) ^ (leastExponent + level) = p at *
  obtain ⟨low, high, tie⟩ := half
  have scale : v = v / p * p := (div_mul_cancel₀ v positive.ne').symm
  generalize v / p = u at *
  have even (parity : significand % 2 = 0) : (level * leadingBit + significand) % 2 = 0 := by
    rw [leadingBit_eq]
    omega
  have high' : 2 * v ≤ (2 * significand + 1) * p := by nlinarith
  have tieHigh (same : 2 * v = magnitude (level * leadingBit + significand) +
      magnitude (level * leadingBit + significand + 1)) : significand % 2 = 0 := by
    refine tie (.inr (mul_right_cancel₀ positive.ne' ?_))
    linarith
  by_cases lower : Normal level (significand - 1) ∧ 0 < significand
  · have before := before lower.1 lower.2
    refine ⟨?_, by linarith, ?_⟩
    · rw [before, here]
      nlinarith
    · rintro (same | same)
      · refine even (tie (.inl (mul_right_cancel₀ positive.ne' ?_)))
        linarith
      · exact even (tieHigh same)
  · -- Below a power of two the units are smaller, but the value is not below it.
    have above : magnitude (level * leadingBit + significand) ≤ v ∧ significand % 2 = 0 := by
      rw [here]
      rcases Nat.eq_zero_or_pos significand with rfl | filled
      · exact ⟨by simpa using nonneg, rfl⟩
      · obtain ⟨rfl, other⟩ : significand = leadingBit ∧ level ≠ 0 := by
          simp only [Normal] at *
          omega
        exact ⟨top.resolve_left other, rfl⟩
    have previous := magnitude_strictMono.monotone
      (Nat.sub_le (level * leadingBit + significand) 1)
    exact ⟨by linarith, by linarith, fun _ => even above.2⟩

theorem nearestRank_nearest (num : Nat) (positive : 0 < den) :
    ∃ rank, Nearest (num / den) rank ∧ nearestRank num den = min infinityRank rank := by
  rcases Nat.eq_zero_or_pos num with rfl | filled
  · refine ⟨0, ?_, by simp [nearestRank]⟩
    simpa [magnitude_zero] using nearest_self 0
  obtain ⟨low, high⟩ := binaryOrder_spec filled positive
  simp only [nearestRank, if_neg filled.ne']
  generalize exponent : max leastExponent (binaryOrder num den - 52) = e
  have atLeast : leastExponent ≤ e := exponent ▸ le_max_left ..
  obtain ⟨level, rfl⟩ := Int.le.dest atLeast
  have half := roundHalfEven_half (scaled num den (leastExponent + level)).1
    (scaled_pos num positive (leastExponent + level))
  rw [scaled_eq] at half
  generalize roundHalfEven _ _ = significand at *
  generalize (num / den : ℚ) = v at *
  refine ⟨level * leadingBit + significand, ?_, ?_⟩
  · have nonneg : 0 ≤ v := le_trans (by positivity) low
    have unit : (0 : ℚ) < 2 ^ (leastExponent + level) := by positivity
    have top : level = 0 ∨ leadingBit * 2 ^ (leastExponent + level) ≤ v := by
      refine or_iff_not_imp_left.mpr fun other => ?_
      have order : binaryOrder num den = 52 + (leastExponent + level) := by omega
      rwa [order, zpow_add₀ two_ne_zero] at low
    have bound : v < 2 * leadingBit * 2 ^ (leastExponent + level) := by
      refine high.trans_le ?_
      rw [leadingBit_cast, ← zpow_one_add₀ two_ne_zero, ← zpow_add₀ two_ne_zero]
      exact zpow_le_zpow_right₀ one_le_two (by omega)
    have small : significand ≤ 2 * leadingBit :=
      half.le_of_lt (by rw [div_lt_iff₀ unit]; exact_mod_cast bound)
    have normal : Normal level significand := by
      refine or_iff_not_imp_right.mpr fun other => half.ge_of_le ?_
      rw [le_div_iff₀ unit]
      exact top.resolve_left other
    exact (halfway_of_half normal small half nonneg top).nearest
  · rw [add_sub_cancel_left, Int.toNat_natCast]

end Binary64

namespace Decimal

/-- The number that a decimal denotes. -/
def value (d : Decimal) : ℚ := d.coefficient * 10 ^ d.exponent

variable {d : Decimal}

theorem value_nonneg (d : Decimal) : 0 ≤ d.value := by
  unfold value
  positivity

theorem value_bounds (filled : 0 < d.coefficient) :
    (10 : ℚ) ^ (d.places + d.exponent - 1) ≤ d.value ∧ d.value < 10 ^ (d.places + d.exponent) := by
  have some : 0 < d.places := Nat.length_toDigits_pos
  have above : d.coefficient < 10 ^ d.places :=
    (Nat.length_toDigits_le_iff (by decide) some).mp le_rfl
  have below : 10 ^ (d.places - 1) ≤ d.coefficient := by
    rcases Nat.eq_zero_or_pos (d.places - 1) with one | more
    · rwa [one]
    · refine not_lt.mp fun less => ?_
      have := (Nat.length_toDigits_le_iff (by decide) more).mpr less
      rw [← places] at this
      omega
  have power (n : Nat) :
      (10 : ℚ) ^ ((n : Int) + d.exponent) = (10 ^ n : Nat) * 10 ^ d.exponent := by
    rw [zpow_add₀ (by norm_num), zpow_natCast, Nat.cast_pow, Nat.cast_ofNat]
  have shifted : (d.places : Int) + d.exponent - 1 = (d.places - 1 : Nat) + d.exponent := by omega
  have unit : (0 : ℚ) < 10 ^ d.exponent := by positivity
  rw [shifted, power, power, value]
  constructor
  · gcongr
  · gcongr

end Decimal

namespace Binary64

open Number (wholePower wholePower_eq wholePower_pos)

theorem magnitude_infinityRank : magnitude infinityRank = 2 ^ (1024 : Int) := by
  have bound : leadingBit ≤ 2 * leadingBit := by omega
  rw [show infinityRank = 2046 * leadingBit + leadingBit from rfl, magnitude_eq (.inl le_rfl) bound,
    leadingBit_cast, leastExponent_eq, ← zpow_add₀ two_ne_zero]
  norm_num

theorem magnitude_last :
    magnitude infinityRank = magnitude (infinityRank - 1) + 2 ^ (970 : Int) * 2 := by
  have unit : exponentOf (infinityRank - 1) = 970 + 1 := by decide
  have last := magnitude_succ (infinityRank - 1)
  rwa [unit, zpow_add_one₀ two_ne_zero] at last

/-- What a finite number is nearest to is nearer to the largest of them than to the next power of
two. -/
theorem Nearest.range {v : ℚ} {rank : Nat} (near : Nearest v rank) (finite : rank < infinityRank) :
    v < 2 ^ (1024 : Int) - 2 ^ (970 : Int) := by
  by_contra beyond
  have last := magnitude_last
  have positive : (0 : ℚ) < 2 ^ (970 : Int) := by positivity
  have choice := near infinityRank (by omega)
  have most : magnitude rank ≤ magnitude (infinityRank - 1) :=
    magnitude_strictMono.monotone (by omega)
  rw [← magnitude_infinityRank] at beyond
  generalize (2 : ℚ) ^ (970 : Int) = half at *
  have above : |v - magnitude rank| = v - magnitude rank := abs_of_nonneg (by linarith)
  have nearer : |v - magnitude infinityRank| ≤ v - magnitude (infinityRank - 1) :=
    abs_le.mpr ⟨by linarith, by linarith⟩
  rw [above] at choice
  rcases choice with less | ⟨same, even⟩
  · linarith
  · -- The largest finite number has an odd rank.
    have largest : rank = infinityRank - 1 := magnitude_strictMono.injective (by linarith)
    rw [largest] at even
    exact absurd even (by decide)

/-- Within that range no rank beyond the finite numbers is as near as the last of them. -/
theorem far_of_infinite {v : ℚ} {rank : Nat} (range : v < 2 ^ (1024 : Int) - 2 ^ (970 : Int))
    (infinite : infinityRank ≤ rank) :
    |v - magnitude (infinityRank - 1)| < |v - magnitude rank| := by
  have last := magnitude_last
  have beyond := magnitude_strictMono.monotone infinite
  have positive : (0 : ℚ) < 2 ^ (970 : Int) := by positivity
  rw [← magnitude_infinityRank] at range
  generalize (2 : ℚ) ^ (970 : Int) = half at *
  rw [abs_sub_comm v (magnitude rank), abs_of_nonneg (show 0 ≤ magnitude rank - v by linarith)]
  exact abs_lt.mpr ⟨by linarith, by linarith⟩

/-- Zero is nearest to what is below half of the least number. -/
theorem nearest_zero {v : ℚ} (nonneg : 0 ≤ v) (small : v < 2 ^ (-1075 : Int)) : Nearest v 0 := by
  have least : magnitude 1 = 2 * 2 ^ (-1075 : Int) := by
    rw [magnitude_succ, magnitude_zero, zero_add, ← zpow_one_add₀ two_ne_zero]
    rfl
  have halfway : Halfway v 0 := by
    refine ⟨by simpa [magnitude_zero] using nonneg, ?_, fun _ => rfl⟩
    rw [magnitude_zero, least]
    linarith
  exact halfway.nearest

/-- A decimal that a finite number is nearest to is read as that number. -/
theorem rankOfDecimal_eq {d : Decimal} {rank : Nat} (near : Nearest d.value rank)
    (finite : rank < infinityRank) : rankOfDecimal d = rank := by
  unfold rankOfDecimal
  split_ifs with none large small
  · have zero : d.value = magnitude 0 := by rw [Decimal.value, none, magnitude_zero]; simp
    exact (zero ▸ nearest_self 0).unique near
  · have above : 2 ^ (1024 : Int) < d.value :=
      calc (2 : ℚ) ^ (1024 : Int) < 10 ^ (309 : Int) := by
            exact_mod_cast (by decide +kernel : 2 ^ 1024 < 10 ^ 309)
        _ ≤ 10 ^ (d.places + d.exponent - 1) := zpow_le_zpow_right₀ (by norm_num) (by omega)
        _ ≤ d.value := (d.value_bounds (Nat.pos_of_ne_zero none)).1
    have beyond := above.trans (near.range finite)
    exact absurd beyond (not_lt.mpr (sub_le_self _ (by positivity)))
  · have below : d.value < 2 ^ (-1075 : Int) :=
      calc d.value < 10 ^ (d.places + d.exponent) := (d.value_bounds (Nat.pos_of_ne_zero none)).2
        _ ≤ 10 ^ (-324 : Int) := zpow_le_zpow_right₀ (by norm_num) small
        _ < 2 ^ (-1075 : Int) := by
          rw [zpow_neg, zpow_neg]
          refine inv_strictAnti₀ (by positivity) ?_
          exact_mod_cast (by decide +kernel : 2 ^ 1075 < 10 ^ 324)
    exact (nearest_zero d.value_nonneg below).unique near
  · have ten : 0 < 10 := by decide
    have filled : (wholePower 10 (-d.exponent) : ℚ) ≠ 0 := by
      exact_mod_cast (wholePower_pos ten (-d.exponent)).ne'
    obtain ⟨rank', near', same⟩ := nearestRank_nearest
      (d.coefficient * wholePower 10 d.exponent) (wholePower_pos ten (-d.exponent))
    have value : ((d.coefficient * wholePower 10 d.exponent : Nat) : ℚ) /
        wholePower 10 (-d.exponent) = d.value := by
      rw [Nat.cast_mul, wholePower_eq ten d.exponent, Decimal.value]
      push_cast
      field_simp
    rw [value] at near'
    rw [same, near'.unique near]
    exact min_eq_right finite.le

end Binary64

end Worksheet
