import Mathlib.Algebra.Order.Field.Power
import Mathlib.Data.Rat.Defs
import Mathlib.Order.Monotone.Basic
import Mathlib.Tactic.Linarith
import Mathlib.Tactic.Ring
import Worksheet.Number

/-! Numbers by their ranks. The magnitude grows with the rank, by the unit of the last place, and
the number that a value is rounded to is the one whose halfway points to its neighbours the value
lies between. -/
namespace Worksheet.Binary64

/-- The exponent of the number of this rank. -/
def exponentOf (rank : Nat) : Int := leastExponent + (rank / leadingBit - 1 : Nat)

def significandOf (rank : Nat) : Nat := rank - (rank / leadingBit - 1) * leadingBit

/-- The non-negative number of this rank. Beyond the finite numbers the ranks go on as if the
exponent had no bound. -/
def magnitude (rank : Nat) : ℚ := significandOf rank * 2 ^ exponentOf rank

theorem leadingBit_eq : leadingBit = 4503599627370496 := rfl

theorem leadingBit_cast : (leadingBit : ℚ) = 2 ^ (52 : Int) := by norm_num [leadingBit_eq]

theorem leastExponent_eq : leastExponent = -1074 := rfl

variable {rank level significand : Nat} {v : ℚ}

/-- A significand is normal, or the exponent is the least one. -/
def Normal (level significand : Nat) : Prop := leadingBit ≤ significand ∨ level = 0

theorem rank_cases (rank : Nat) : ∃ level significand, rank = level * leadingBit + significand ∧
    significand < 2 * leadingBit ∧ Normal level significand := by
  refine ⟨rank / leadingBit - 1, significandOf rank, ?_, ?_, ?_⟩ <;>
    simp only [significandOf, Normal, leadingBit_eq] <;> omega

theorem exponentOf_eq (normal : Normal level significand) (bound : significand < 2 * leadingBit) :
    exponentOf (level * leadingBit + significand) = leastExponent + level := by
  simp only [exponentOf, Normal, leadingBit_eq] at *
  omega

theorem le_exponentOf (normal : Normal level significand) :
    leastExponent + level ≤ exponentOf (level * leadingBit + significand) := by
  simp only [exponentOf, Normal, leadingBit_eq] at *
  omega

theorem significandOf_eq (normal : Normal level significand)
    (bound : significand < 2 * leadingBit) :
    significandOf (level * leadingBit + significand) = significand := by
  simp only [significandOf, Normal, leadingBit_eq] at *
  omega

/-- The next power of two may be written with the exponent below its own. -/
theorem magnitude_eq (normal : Normal level significand) (bound : significand ≤ 2 * leadingBit) :
    magnitude (level * leadingBit + significand) = significand * 2 ^ (leastExponent + level) := by
  rcases bound.lt_or_eq with bound | rfl
  · rw [magnitude, exponentOf_eq normal bound, significandOf_eq normal bound]
  · have next : level * leadingBit + 2 * leadingBit = (level + 1) * leadingBit + leadingBit := by
      ring
    have normal : Normal (level + 1) leadingBit := .inl le_rfl
    have bound : leadingBit < 2 * leadingBit := by rw [leadingBit_eq]; omega
    rw [next, magnitude, exponentOf_eq normal bound, significandOf_eq normal bound]
    push_cast
    rw [← add_assoc, zpow_add_one₀ two_ne_zero]
    ring

theorem magnitude_pred (lower : Normal level (significand - 1)) (filled : 0 < significand)
    (bound : significand ≤ 2 * leadingBit) : magnitude (level * leadingBit + significand - 1) =
      (significand - 1) * 2 ^ (leastExponent + level) := by
  rw [Nat.add_sub_assoc filled, magnitude_eq lower ((Nat.sub_le ..).trans bound),
    Nat.cast_sub filled, Nat.cast_one]

/-- Neighbours are one unit of the last place apart. -/
theorem magnitude_succ (rank : Nat) :
    magnitude (rank + 1) = magnitude rank + 2 ^ exponentOf rank := by
  obtain ⟨level, significand, rfl, bound, normal⟩ := rank_cases rank
  have next : Normal level (significand + 1) := normal.imp_left (Nat.le_succ_of_le)
  rw [add_assoc, magnitude_eq next bound, magnitude_eq normal bound.le, exponentOf_eq normal bound]
  push_cast
  ring

theorem magnitude_strictMono : StrictMono magnitude := by
  refine strictMono_nat_of_lt_succ fun rank => ?_
  rw [magnitude_succ]
  exact lt_add_of_pos_right _ (by positivity)

theorem magnitude_zero : magnitude 0 = 0 := by simp [magnitude, significandOf]

theorem magnitude_nonneg (rank : Nat) : 0 ≤ magnitude rank := by
  unfold magnitude
  positivity

theorem magnitude_pos (filled : 0 < rank) : 0 < magnitude rank :=
  magnitude_zero ▸ magnitude_strictMono filled

/-- No number is nearer to the value, and one that is as near leaves it the even rank. -/
def Nearest (v : ℚ) (rank : Nat) : Prop :=
  ∀ other ≠ rank, |v - magnitude rank| < |v - magnitude other| ∨
    |v - magnitude rank| = |v - magnitude other| ∧ rank % 2 = 0

/-- The value lies between the points halfway to the neighbours, and on one of them only where the
rank is even. -/
structure Halfway (v : ℚ) (rank : Nat) : Prop where
  low : magnitude (rank - 1) + magnitude rank ≤ 2 * v
  high : 2 * v ≤ magnitude rank + magnitude (rank + 1)
  tie : 2 * v = magnitude (rank - 1) + magnitude rank ∨
    2 * v = magnitude rank + magnitude (rank + 1) → rank % 2 = 0

theorem Halfway.nearest (h : Halfway v rank) : Nearest v rank := by
  obtain ⟨low, high, tie⟩ := h
  intro other different
  rcases Nat.lt_or_gt_of_ne different with less | greater
  · have before : magnitude other ≤ magnitude (rank - 1) :=
      magnitude_strictMono.monotone (Nat.le_sub_one_of_lt less)
    have here : magnitude other < magnitude rank := magnitude_strictMono less
    rw [abs_of_nonneg (show 0 ≤ v - magnitude other by linarith)]
    rcases (show magnitude other + magnitude rank ≤ 2 * v by linarith).lt_or_eq with inside | ends
    · exact .inl (abs_lt.mpr ⟨by linarith, by linarith⟩)
    · refine .inr ⟨?_, tie (.inl (by linarith))⟩
      rw [abs_of_nonpos (by linarith)]
      linarith
  · have behind : magnitude (rank + 1) ≤ magnitude other :=
      magnitude_strictMono.monotone greater
    have here : magnitude rank < magnitude other := magnitude_strictMono greater
    rw [abs_of_nonpos (show v - magnitude other ≤ 0 by linarith)]
    rcases (show 2 * v ≤ magnitude rank + magnitude other by linarith).lt_or_eq with inside | ends
    · exact .inl (abs_lt.mpr ⟨by linarith, by linarith⟩)
    · refine .inr ⟨?_, tie (.inr (by linarith))⟩
      rw [abs_of_nonneg (by linarith)]
      linarith

namespace Nearest

theorem le (h : Nearest v rank) (other : Nat) : |v - magnitude rank| ≤ |v - magnitude other| := by
  by_cases same : other = rank
  · rw [same]
  · exact (h other same).elim le_of_lt fun tie => tie.1.le

theorem unique {rank' : Nat} (h : Nearest v rank) (h' : Nearest v rank') : rank = rank' := by
  wlog less : rank < rank' generalizing rank rank'
  · rcases Nat.lt_trichotomy rank rank' with order | order | order
    · exact this h h' order
    · exact order
    · exact (this h' h order).symm
  exfalso
  have apart := magnitude_strictMono less
  rcases h rank' less.ne' with nearer | ⟨same, even⟩
  · exact absurd (h'.le rank) (not_le.mpr nearer)
  rcases h' rank less.ne with nearer | ⟨_, even'⟩
  · exact absurd (h.le rank') (not_le.mpr nearer)
  -- Between two even ranks is an odd one, which is nearer than both.
  have inside := magnitude_strictMono (Nat.lt_succ_self rank)
  have inside' := magnitude_strictMono (show rank + 1 < rank' by omega)
  have halfway : v - magnitude rank = magnitude rank' - v := by
    rcases abs_eq_abs.mp same with same | same <;> linarith
  have nearer : |v - magnitude (rank + 1)| < |v - magnitude rank| := by
    rw [abs_of_nonneg (show 0 ≤ v - magnitude rank by linarith)]
    exact abs_lt.mpr ⟨by linarith, by linarith⟩
  exact absurd (h.le (rank + 1)) (not_le.mpr nearer)

end Nearest

theorem nearest_self (rank : Nat) : Nearest (magnitude rank) rank := by
  intro other different
  left
  rw [sub_self, abs_zero, abs_pos, sub_ne_zero]
  exact magnitude_strictMono.injective.ne different.symm

end Worksheet.Binary64
