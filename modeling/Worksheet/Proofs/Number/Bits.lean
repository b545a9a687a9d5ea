import Mathlib
import Worksheet.Proofs.Number.Rank

/-! Floats and their ranks. A finite float is its sign and its rank, both ways, and negation changes
the sign and nothing else. -/
namespace Worksheet.Binary64

open Float.Model (Format)
open Float.Model.UnpackedFloat

variable {bits : UInt64} {rank : Nat} {negative : Bool}

def signed (negative : Bool) (rank : Nat) : UInt64 :=
  .ofNat (if negative then signBit + rank else rank)

theorem signBit_eq : signBit = 9223372036854775808 := rfl

theorem infinityRank_eq : infinityRank = 9218868437227405312 := rfl

theorem toNat_signed (finite : rank < infinityRank) :
    (signed negative rank).toNat = (if negative then signBit else 0) + rank := by
  rw [infinityRank_eq] at finite
  cases negative <;> simp [signed, signBit_eq] <;> omega

/-- The bits of a finite number are neither those of an infinity nor those of no number. -/
def IsFinite (bits : UInt64) : Prop := bits.toNat / leadingBit % 2048 ≠ 2047

theorem isFinite_signed (finite : rank < infinityRank) : IsFinite (signed negative rank) := by
  rw [IsFinite, toNat_signed finite]
  rw [infinityRank_eq] at finite
  cases negative <;> simp [signBit_eq, leadingBit_eq] <;> omega

theorem exists_signed (finite : IsFinite bits) :
    ∃ negative rank, rank < infinityRank ∧ bits = signed negative rank := by
  have bound := bits.toNat_lt
  rw [IsFinite, leadingBit_eq] at finite
  by_cases less : bits.toNat < signBit
  · have rank : bits.toNat < infinityRank := by
      simp only [signBit_eq, infinityRank_eq] at *
      omega
    exact ⟨false, bits.toNat, rank, UInt64.toNat_inj.mp (by simp [toNat_signed rank])⟩
  · have rank : bits.toNat - signBit < infinityRank := by
      simp only [signBit_eq, infinityRank_eq] at *
      omega
    refine ⟨true, bits.toNat - signBit, rank, UInt64.toNat_inj.mp ?_⟩
    rw [toNat_signed rank, if_pos rfl, Nat.add_sub_cancel' (not_lt.mp less)]

theorem fields_signed (negative : Bool) (finite : rank < infinityRank) :
    (signed negative rank).toNat / signBit % 2 = (if negative then 1 else 0) ∧
      (signed negative rank).toNat / leadingBit % 2048 = rank / leadingBit ∧
      (signed negative rank).toNat % leadingBit = rank % leadingBit := by
  rw [toNat_signed finite]
  simp only [infinityRank_eq, signBit_eq, leadingBit_eq] at *
  cases negative
  · simp only [Bool.false_eq_true, if_false]
    omega
  · simp only [if_true]
    omega

/-- Taken apart, a number has the significand and the exponent of its rank. -/
theorem ofBits_signed (negative : Bool) (finite : rank < infinityRank) :
    ofBits (signed negative rank) = .finite negative (significandOf rank) (exponentOf rank) := by
  obtain ⟨_, field, fraction⟩ := fields_signed negative finite
  have sign : decide (signBit ≤ (signed negative rank).toNat) = negative := by
    rw [toNat_signed finite]
    simp only [infinityRank_eq, signBit_eq] at *
    cases negative
    · simpa using by omega
    · simp
  have special : rank / leadingBit ≠ 2047 := by
    simp only [infinityRank_eq, leadingBit_eq] at *
    omega
  simp only [ofBits, field, fraction, sign, significandOf, exponentOf, if_neg special]
  split_ifs with subnormal
  · simp only [Binary64.finite.injEq, true_and, leadingBit_eq, leastExponent_eq] at *
    omega
  · simp only [Binary64.finite.injEq, true_and, leadingBit_eq, leastExponent_eq] at *
    omega

theorem unpackSign_toNat (bits : UInt64) :
    (@unpackSign Format.binary64 bits.toBitVec).toNat = bits.toNat / signBit % 2 := by
  change (bits.toNat >>> 63) % 2 ^ 1 = _
  rw [Nat.shiftRight_eq_div_pow]
  rfl

theorem unpackExponent_toNat (bits : UInt64) :
    (@unpackExponent Format.binary64 bits.toBitVec).toNat = bits.toNat / leadingBit % 2048 := by
  change (bits.toNat >>> 52) % 2 ^ 11 = _
  rw [Nat.shiftRight_eq_div_pow]
  rfl

theorem unpackMantissa_toNat (bits : UInt64) :
    (@unpackMantissa Format.binary64 bits.toBitVec).toNat = bits.toNat % leadingBit := by
  change (bits.toNat >>> 0) % 2 ^ 52 = _
  rw [Nat.shiftRight_zero]
  rfl

theorem unpackExponent_eq (bits : UInt64) :
    @unpackExponent Format.binary64 bits.toBitVec = -1#11 ↔ ¬IsFinite bits := by
  rw [IsFinite, not_not, ← unpackExponent_toNat, ← BitVec.toNat_inj]
  exact Iff.rfl

theorem isFinite_toBits (x : Float) : x.isFinite ↔ IsFinite x.toBits := by
  have special := unpackExponent_eq x.toBits
  change (unpack Format.binary64 x.toBits.toBitVec).isFinite ↔ IsFinite x.toBits
  unfold unpack
  dsimp only
  split_ifs <;> simp_all [Float.Model.UnpackedFloat.isFinite]

theorem pack_unpack_finite (finite : IsFinite bits) :
    pack Format.binary64 (unpack Format.binary64 bits.toBitVec) = bits.toBitVec := by
  rw [pack_unpack, if_neg]
  intro nan
  exact (unpackExponent_eq bits).mp (of_decide_eq_true nan).1 finite

theorem toBits_ofBits (finite : IsFinite bits) : (Float.ofBits bits).toBits = bits :=
  UInt64.toBitVec_inj.mp (pack_unpack_finite finite)

theorem unpack_neg {a b : UInt64}
    (sign : Sign.ofBitVec (@unpackSign Format.binary64 b.toBitVec) =
      -Sign.ofBitVec (@unpackSign Format.binary64 a.toBitVec))
    (exponent : @unpackExponent Format.binary64 b.toBitVec =
      @unpackExponent Format.binary64 a.toBitVec)
    (mantissa : @unpackMantissa Format.binary64 b.toBitVec =
      @unpackMantissa Format.binary64 a.toBitVec) :
    unpack Format.binary64 b.toBitVec = (unpack Format.binary64 a.toBitVec).neg := by
  unfold unpack
  simp only [sign, exponent, mantissa]
  split_ifs <;> rfl

theorem toBits_neg (finite : rank < infinityRank) :
    (-Float.ofBits (signed false rank)).toBits = signed true rank := by
  obtain ⟨sign, field, fraction⟩ := fields_signed false finite
  obtain ⟨sign', field', fraction'⟩ := fields_signed true finite
  rw [← unpackSign_toNat] at sign sign'
  have negated := unpack_neg (a := signed false rank) (b := signed true rank) ?_ ?_ ?_
  · apply UInt64.toBitVec_inj.mp
    change pack Format.binary64
      (unpack Format.binary64 (Float.ofBits (signed false rank)).toBits.toBitVec).neg = _
    rw [toBits_ofBits (isFinite_signed finite), ← negated,
      pack_unpack_finite (isFinite_signed finite)]
  · have positive : @unpackSign Format.binary64 (signed false rank).toBitVec = 0#1 :=
      BitVec.eq_of_toNat_eq sign
    have negative : @unpackSign Format.binary64 (signed true rank).toBitVec = 1#1 :=
      BitVec.eq_of_toNat_eq sign'
    rw [positive, negative]
    rfl
  · rw [← BitVec.toNat_inj, unpackExponent_toNat, unpackExponent_toNat, field, field']
  · rw [← BitVec.toNat_inj, unpackMantissa_toNat, unpackMantissa_toNat, fraction, fraction']

end Worksheet.Binary64
