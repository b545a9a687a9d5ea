import Worksheet.Proofs.Expression.Numeral
import Worksheet.Proofs.Number.Bits
import Worksheet.Proofs.Number.Shortest

/-! Displays read back. A finite float is shown as a numeral that is rounded to it, and the numeral
is read as that float again. -/
namespace Worksheet.Number

open Binary64 (Nearest magnitude magnitude_zero magnitude_pos magnitude_strictMono infinityRank
  signed)
open Formula (DecimalNumeral)

def sign (negative : Bool) : ℚ := if negative then -1 else 1

/-- The number that a finite float stands for. -/
def value (x : Float) : ℚ :=
  match Binary64.ofBits x.toBits with
  | .finite negative significand exponent => sign negative * (significand * 2 ^ exponent)
  | _ => 0

/-- Rounding to the nearest float, ties to even. What is nearer to the next power of two than to the
largest finite float, or as near, is rounded to none of them. -/
structure RoundsTo (v : ℚ) (x : Float) : Prop where
  range : |v| < 2 ^ (1024 : Int) - 2 ^ (970 : Int)
  nearest : ∀ y : Float, y.isFinite → value y ≠ value x →
    |v - value x| < |v - value y| ∨ |v - value x| = |v - value y| ∧ x.toBits % 2 = 0

/-- A numeral that a float is shown as, and read back from. -/
structure ReadsBack (x : Float) (n : DecimalNumeral) : Prop where
  text : display x = .ofList n.text
  plain : n.Plain
  rounds : RoundsTo n.value x
  exact : ∀ k : Int, value x = k → |k| < 10 ^ 15 → n.value = value x

variable {negative : Bool} {rank : Nat} {n : DecimalNumeral}

/-- The float of a rank, behind a sign. -/
def ofSigned (negative : Bool) (rank : Nat) : Float := .ofBits (signed negative rank)

theorem toBits_ofSigned (finite : rank < infinityRank) :
    (ofSigned negative rank).toBits = signed negative rank :=
  Binary64.toBits_ofBits (Binary64.isFinite_signed finite)

theorem isFinite_ofSigned (finite : rank < infinityRank) : (ofSigned negative rank).isFinite := by
  rw [Binary64.isFinite_toBits, toBits_ofSigned finite]
  exact Binary64.isFinite_signed finite

theorem exists_ofSigned {x : Float} (finite : x.isFinite) :
    ∃ negative rank, rank < infinityRank ∧ x = ofSigned negative rank := by
  obtain ⟨negative, rank, bound, bits⟩ :=
    Binary64.exists_signed ((Binary64.isFinite_toBits x).mp finite)
  exact ⟨negative, rank, bound, Float.toBits_inj.mp (bits.trans (toBits_ofSigned bound).symm)⟩

theorem neg_ofSigned (finite : rank < infinityRank) : -ofSigned false rank = ofSigned true rank :=
  Float.toBits_inj.mp ((Binary64.toBits_neg finite).trans (toBits_ofSigned finite).symm)

theorem value_ofSigned (finite : rank < infinityRank) :
    value (ofSigned negative rank) = sign negative * magnitude rank := by
  rw [value, toBits_ofSigned finite, Binary64.ofBits_signed negative finite]
  rfl

structure Shows (n : DecimalNumeral) (negative : Bool) (rank : Nat) : Prop where
  sign : n.negative = (negative && decide (0 < rank))
  plain : n.Plain
  text : display (ofSigned negative rank) = .ofList n.text
  near : Nearest n.literal.decimal.value rank
  exact : ∀ k : Nat, (k : ℚ) = magnitude rank → k < 10 ^ 15 → n.literal.decimal.value = k

theorem abs_sign_mul (negative : Bool) (v : ℚ) : |sign negative * v| = |v| := by
  cases negative <;> simp [sign]

theorem sign_of_ne {negative' : Bool} (other : negative' ≠ negative) :
    sign negative' = -sign negative := by
  cases negative <;> cases negative' <;> simp_all [sign]

theorem value_sign (n : DecimalNumeral) :
    n.value = sign n.negative * n.literal.decimal.value := n.value_eq

theorem even_signed (finite : rank < infinityRank) :
    signed negative rank % 2 = 0 ↔ rank % 2 = 0 := by
  rw [← UInt64.toNat_inj, UInt64.toNat_mod, Binary64.toNat_signed finite, Binary64.signBit_eq]
  cases negative
  · simp
  · simpa using by omega

theorem value_zero (negative : Bool) : value (ofSigned negative 0) = 0 := by
  rw [value_ofSigned (by decide), magnitude_zero, mul_zero]

theorem display_ofSigned (finite : rank < infinityRank) : display (ofSigned negative rank) =
    .ofList (Binary64.text (.finite negative (Binary64.significandOf rank)
      (Binary64.exponentOf rank))) := by
  rw [display, toBits_ofSigned finite, Binary64.ofBits_signed negative finite]

theorem display_congr {negative' : Bool} (finite : rank < infinityRank)
    (same : value (ofSigned negative' rank) = value (ofSigned negative rank)) :
    display (ofSigned negative' rank) = display (ofSigned negative rank) := by
  rcases Nat.eq_zero_or_pos rank with rfl | filled
  · rw [display_ofSigned finite, display_ofSigned finite]
    rfl
  · have positive := magnitude_pos filled
    suffices negative' = negative by rw [this]
    by_contra other
    rw [value_ofSigned finite, value_ofSigned finite, sign_of_ne other] at same
    cases negative <;> simp [sign] at same <;> linarith

section Rounding

variable {negative' : Bool} {v : ℚ}

/-- What is nearest to the magnitude is nearest to the number. -/
theorem roundsTo_of_nearest (near : Nearest v rank) (nonneg : 0 ≤ v) (finite : rank < infinityRank)
    (same : value (ofSigned negative' rank) = sign negative * magnitude rank) :
    RoundsTo (sign negative * v) (ofSigned negative' rank) := by
  constructor
  · rw [abs_sign_mul, abs_of_nonneg nonneg]
    exact near.range finite
  · intro y finite' different
    obtain ⟨other, rank', bound, rfl⟩ := exists_ofSigned finite'
    rw [same, value_ofSigned bound] at *
    rw [← mul_sub, abs_sign_mul, toBits_ofSigned finite, even_signed finite]
    by_cases alike : other = negative
    · rw [alike, ← mul_sub, abs_sign_mul]
      exact near rank' fun equal => different (by rw [alike, equal])
    · -- The other numbers of the other sign are behind zero, which is not nearer.
      rw [sign_of_ne alike, neg_mul, sub_neg_eq_add, ← mul_add, abs_sign_mul]
      rcases Nat.eq_zero_or_pos rank' with rfl | filled
      · rw [magnitude_zero, add_zero]
        rw [magnitude_zero, mul_zero] at different
        have := near 0 (by rintro rfl; simp [magnitude_zero] at different)
        rwa [magnitude_zero, sub_zero] at this
      · left
        have positive := magnitude_pos filled
        have zero := near.le 0
        rw [magnitude_zero, sub_zero, abs_of_nonneg nonneg] at zero
        rw [abs_of_nonneg (add_nonneg nonneg positive.le)]
        linarith

namespace RoundsTo

variable (rounds : RoundsTo (sign negative * v) (ofSigned negative' rank)) (nonneg : 0 ≤ v)
  (finite : rank < infinityRank)

include rounds nonneg finite

theorem value_eq : value (ofSigned negative' rank) = sign negative * magnitude rank := by
  by_cases alike : negative' = negative
  · rw [value_ofSigned finite, alike]
  rcases Nat.eq_zero_or_pos rank with rfl | filled
  · rw [value_zero, magnitude_zero, mul_zero]
  -- Zero would be nearer than what is behind it.
  have positive := magnitude_pos filled
  have value : value (ofSigned negative' rank) = sign negative * -magnitude rank := by
    rw [value_ofSigned finite, sign_of_ne alike, neg_mul, mul_neg]
  have away : sign negative * -magnitude rank ≠ 0 := by
    cases negative <;> simpa [sign] using positive.ne'
  have zero := rounds.nearest (ofSigned false 0) (isFinite_ofSigned (by decide))
    (by rwa [value, value_zero, ne_comm])
  rw [value, value_zero, ← mul_sub, abs_sign_mul, sub_zero, abs_sign_mul, sub_neg_eq_add,
    abs_of_nonneg nonneg, abs_of_nonneg (by linarith)] at zero
  rcases zero with less | ⟨same, _⟩ <;> linarith

theorem near : Nearest v rank := by
  have same := rounds.value_eq nonneg finite
  have range := rounds.range
  rw [abs_sign_mul, abs_of_nonneg nonneg] at range
  have near (other : Nat) (different : other ≠ rank) (finite' : other < infinityRank) :
      |v - magnitude rank| < |v - magnitude other| ∨
        |v - magnitude rank| = |v - magnitude other| ∧ rank % 2 = 0 := by
    have apart : value (ofSigned negative other) ≠ value (ofSigned negative' rank) := by
      rw [same, value_ofSigned finite']
      have := magnitude_strictMono.injective.ne different
      cases negative <;> simpa [sign] using this
    have near := rounds.nearest (ofSigned negative other) (isFinite_ofSigned finite') apart
    rwa [same, value_ofSigned finite', ← mul_sub, ← mul_sub, abs_sign_mul, abs_sign_mul,
      toBits_ofSigned finite, even_signed finite] at near
  intro other different
  by_cases finite' : other < infinityRank
  · exact near other different finite'
  · have far := Binary64.far_of_infinite range (not_lt.mp finite')
    left
    by_cases last : infinityRank - 1 = rank
    · exact last ▸ far
    · exact ((near _ last (by decide)).elim le_of_lt fun tie => tie.1.le).trans_lt far

end RoundsTo

end Rounding

theorem exists_shows (negative : Bool) (finite : rank < infinityRank) :
    ∃ n, Shows n negative rank := by
  rcases Nat.eq_zero_or_pos rank with rfl | filled
  · let n : DecimalNumeral := .integral ['0'] (by simp) (by simp)
    have zero : n.literal.decimal.value = magnitude 0 := by
      have none : Nat.ofDigitChars 10 ['0'] 0 = 0 := rfl
      have value : n.value = 0 := by simp [n, DecimalNumeral.value_integral, none]
      rw [magnitude_zero, ← value, n.value_eq]
      simp [n, DecimalNumeral.integral]
    refine ⟨n, by simp [n, DecimalNumeral.integral], .inl rfl, ?_, ?_, fun k same _ => ?_⟩
    · rw [display_ofSigned finite, DecimalNumeral.text_integral]
      rfl
    · exact zero ▸ Binary64.nearest_self 0
    · exact zero.trans same.symm
  · obtain ⟨level, significand, rfl, bound, normal⟩ := Binary64.rank_cases rank
    have some : 0 < significand := by
      rcases normal with normal | rfl
      · exact Nat.lt_of_lt_of_le (by decide) normal
      · omega
    obtain ⟨n, positive, text, plain, near, exact⟩ :=
      Binary64.magnitudeText_numeral normal bound some
    have value : n.value = n.literal.decimal.value := by simp [n.value_eq, positive]
    refine ⟨{ n with negative }, by simp [filled], plain, ?_, value ▸ near, value ▸ exact⟩
    rw [display_ofSigned finite, Binary64.exponentOf_eq normal bound,
      Binary64.significandOf_eq normal bound, Binary64.text, if_neg some.ne', ← text]
    simp [DecimalNumeral.text, DecimalNumeral.literal, positive]

namespace Shows

variable (shows : Shows n negative rank) (finite : rank < infinityRank)

include shows finite

theorem value_eq : value (ofSigned negative rank) = Number.sign n.negative * magnitude rank := by
  rw [value_ofSigned finite, shows.sign]
  rcases Nat.eq_zero_or_pos rank with rfl | filled
  · simp [magnitude_zero]
  · simp [filled]

theorem roundsTo : RoundsTo n.value (ofSigned negative rank) := by
  rw [value_sign]
  exact roundsTo_of_nearest shows.near n.literal.decimal.value_nonneg finite
    (shows.value_eq finite)

theorem negative_iff : n.negative ↔ value (ofSigned negative rank) < 0 := by
  rw [value_ofSigned finite, shows.sign]
  rcases Nat.eq_zero_or_pos rank with rfl | filled
  · simp [magnitude_zero]
  · have positive := magnitude_pos filled
    cases negative
    · simpa [Number.sign] using positive.le
    · simpa [Number.sign, filled] using positive

theorem value_numeral (same : n.literal.decimal.value = magnitude rank) :
    n.value = value (ofSigned negative rank) := by
  rw [value_sign, same, shows.value_eq finite]

theorem readsBack : ReadsBack (ofSigned negative rank) n := by
  refine ⟨shows.text, shows.plain, shows.roundsTo finite, fun k integer less => ?_⟩
  have whole : (k.natAbs : ℚ) = magnitude rank := by
    rw [Nat.cast_natAbs, Int.cast_abs, ← integer, shows.value_eq finite, abs_sign_mul,
      abs_of_nonneg (Binary64.magnitude_nonneg rank)]
  have small : k.natAbs < 10 ^ 15 := by
    rw [Int.abs_eq_natAbs] at less
    omega
  refine shows.value_numeral finite ?_
  rw [shows.exact k.natAbs whole small, whole]

end Shows

/-- Floats that are shown alike are the same, or both are zeros. -/
theorem eq_of_display_eq {x y : Float} (finite : x.isFinite) (finite' : y.isFinite)
    (same : display y = display x) : y = x ∨ value y = 0 ∧ value x = 0 := by
  obtain ⟨negative, rank, bound, rfl⟩ := exists_ofSigned finite
  obtain ⟨negative', rank', bound', rfl⟩ := exists_ofSigned finite'
  obtain ⟨n, shows⟩ := exists_shows negative bound
  obtain ⟨n', shows'⟩ := exists_shows negative' bound'
  have texts : n'.text = n.text :=
    String.ofList_injective (by rw [← shows.text, ← shows'.text, same])
  obtain ⟨signs, literals⟩ := DecimalNumeral.text_inj texts
  obtain rfl : rank' = rank := shows'.near.unique (literals ▸ shows.near)
  rcases Nat.eq_zero_or_pos rank' with rfl | filled
  · exact .inr ⟨value_zero negative', value_zero negative⟩
  · rw [shows.sign, shows'.sign] at signs
    exact .inl (by simpa [filled] using congrArg (ofSigned · rank') signs)

/-- What is rounded to a float is read as a float that is shown as that one. -/
theorem display_read {l : Formula.Literal} {x : Float} (finite : x.isFinite)
    (rounds : RoundsTo (sign negative * l.decimal.value) x) :
    (l.read negative).isFinite ∧ display (l.read negative) = display x := by
  obtain ⟨negative', rank, bound, rfl⟩ := exists_ofSigned finite
  have nonneg := l.decimal.value_nonneg
  have read : l.read negative = ofSigned negative rank := by
    have magnitude : ofDecimal l.decimal = ofSigned false rank := by
      rw [ofDecimal, Binary64.rankOfDecimal_eq (rounds.near nonneg bound) bound]
      rfl
    rw [Formula.Literal.read, magnitude, neg_ofSigned bound]
    cases negative <;> rfl
  rw [read]
  refine ⟨isFinite_ofSigned bound, (display_congr bound ?_).symm⟩
  rw [rounds.value_eq nonneg bound, value_ofSigned bound]

end Worksheet.Number
