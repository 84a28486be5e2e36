import Mathlib

/-!
# Numbers and their bits

A double is determined by its 64 bits, and its bits by the double: `ofBits_toBits` holds of every
double, `toBits_ofBits` of all bits but those of the many patterns that are no number. Both come
from `pack_unpack`, which puts sign, exponent and mantissa together again. Doubles whose bits differ
in the sign alone are opposite (`neg_ofBits`).
-/

set_option autoImplicit false
set_option relaxedAutoImplicit false

namespace Lox.Bits

open Float.Model Float.Model.UnpackedFloat

/-- One bit of sign, eleven of the exponent and 52 of the mantissa. -/
abbrev layout : Format := Format.binary64

abbrev sign (bits : BitVec 64) : BitVec 1 :=
  @unpackSign layout bits

abbrev exponent (bits : BitVec 64) : BitVec 11 :=
  @unpackExponent layout bits

abbrev mantissa (bits : BitVec 64) : BitVec 52 :=
  @unpackMantissa layout bits

theorem toBitVec_ofBitVec (bit : BitVec 1) : (Sign.ofBitVec bit).toBitVec = bit := by
  revert bit
  decide

theorem packComponents_sign_exponent_mantissa (bits : BitVec 64) :
    packComponents layout (Sign.ofBitVec (sign bits)) (exponent bits) (mantissa bits) = bits := by
  unfold packComponents
  rw [toBitVec_ofBitVec]
  refine BitVec.eq_of_getLsbD_eq fun index hindex ↦ ?_
  simp only [unpackMantissa, unpackExponent, unpackSign, BitVec.getLsbD_append,
    BitVec.getLsbD_cast, BitVec.getLsbD_extractLsb]
  simp only [layout, Format.binary64, Format.numBits] at hindex ⊢
  by_cases hmantissa : index < 52
  · simp [hmantissa]
  · by_cases hexponent : index - 52 < 11
    · have hback : 52 + (index - 52) = index := by omega
      simp [hmantissa, hexponent, hback]
    · have hlast : index = 63 := by omega
      subst hlast
      simp

/-! ### Packing what was unpacked -/

private theorem biased_subnormal (bits : BitVec 64) (hexponent : exponent bits = 0#11) :
    (((exponent bits).toNat - (layout.exponentBias + layout.mantissaBitsWithoutImplicit) + 1 :
      Int) + layout.exponentBias + layout.mantissaBitsWithoutImplicit).toNat = 1 := by
  rw [hexponent]
  simp
  omega

private theorem biased_normal (bits : BitVec 64) :
    (((exponent bits).toNat - (layout.exponentBias + layout.mantissaBitsWithoutImplicit) :
      Int) + layout.exponentBias + layout.mantissaBitsWithoutImplicit).toNat =
      (exponent bits).toNat := by
  omega

private theorem toNat_one_append (bits : BitVec 52) :
    (1#1 ++ bits).toNat = 2 ^ 52 + bits.toNat := by
  rw [BitVec.toNat_append, ← Nat.shiftLeft_add_eq_or_of_lt bits.isLt, Nat.shiftLeft_eq]
  simp

private theorem ofNat_toNat_one_append (bits : BitVec 52) :
    BitVec.ofNat 52 (1#1 ++ bits).toNat = bits := by
  refine BitVec.eq_of_toNat_eq ?_
  have hlt := bits.isLt
  rw [toNat_one_append, BitVec.toNat_ofNat]
  omega

private theorem log2_toNat_one_append (bits : BitVec 52) :
    Nat.log2 (1#1 ++ bits).toNat = 52 := by
  have hlt := bits.isLt
  rw [toNat_one_append]
  exact (Nat.log2_eq_iff (by omega)).mpr ⟨by omega, by omega⟩

theorem pack_unpack (bits : BitVec 64) (hvalid : layout.Valid bits) :
    UnpackedFloat.pack layout (UnpackedFloat.unpack layout bits) = bits := by
  have happend := packComponents_sign_exponent_mantissa bits
  have hmantissaBits : layout.mantissaBits = 53 := rfl
  unfold UnpackedFloat.unpack
  simp only
  split
  case isTrue hones =>
    split
    case isTrue hzero =>
      rw [exponent, hones, mantissa, hzero] at happend
      exact happend
    case isFalse hnonzero => exact (hvalid.eq_packedNaN hones hnonzero).symm
  case isFalse hones =>
    split
    case isTrue hsmall =>
      split
      case isTrue hzero =>
        rw [exponent, hsmall, mantissa, hzero] at happend
        exact happend
      case isFalse hnonzero =>
        have hne : (mantissa bits).toNat ≠ 0 := fun hzero ↦
          hnonzero (BitVec.eq_of_toNat_eq (by simpa using hzero))
        have hlog : (mantissa bits).toNat.log2 + 1 ≠ layout.mantissaBits := by
          have hlt : (mantissa bits).toNat.log2 < 52 := (Nat.log2_lt hne).mpr (BitVec.isLt _)
          omega
        simp only [UnpackedFloat.pack]
        rw [biased_subnormal bits hsmall, if_neg (by decide), if_neg hlog, BitVec.ofNat_toNat,
          BitVec.setWidth_eq]
        rwa [exponent, hsmall] at happend
    case isFalse =>
      have hlt : (exponent bits).toNat < 2047 := by
        have hle := (exponent bits).isLt
        have hne : (exponent bits).toNat ≠ 2047 := fun heq ↦
          hones (BitVec.eq_of_toNat_eq (heq.trans (by decide)))
        omega
      simp only [UnpackedFloat.pack]
      rw [biased_normal bits, if_neg (by simp; omega), log2_toNat_one_append,
        if_pos hmantissaBits.symm, ofNat_toNat_one_append, BitVec.ofNat_toNat, BitVec.setWidth_eq]
      exact happend

/-! ### The bits of a double -/

theorem ofBits_toBits (number : Float) : Float.ofBits number.toBits = number := by
  obtain ⟨⟨bits, hvalid⟩⟩ := number
  have hpack := pack_unpack bits.toBitVec hvalid
  simp only [Float.ofBits, Float.toBits, Float.Model.ofBits, Float.Model.pack]
  congr 2
  exact congrArg UInt64.ofBitVec hpack

theorem toBits_ofBits {bits : UInt64} (hvalid : layout.Valid bits.toBitVec) :
    (Float.ofBits bits).toBits = bits := by
  have hpack := pack_unpack bits.toBitVec hvalid
  simp only [Float.ofBits, Float.toBits, Float.Model.ofBits, Float.Model.pack]
  exact congrArg UInt64.ofBitVec hpack

/-! ### The three fields -/

theorem toNat_sign (bits : BitVec 64) : (sign bits).toNat = bits.toNat / 2 ^ 63 := by
  have hlt := bits.isLt
  simp [sign, unpackSign, layout, Format.binary64, Nat.shiftRight_eq_div_pow]
  omega

theorem toNat_exponent (bits : BitVec 64) :
    (exponent bits).toNat = bits.toNat / 2 ^ 52 % 2 ^ 11 := by
  simp [exponent, unpackExponent, layout, Format.binary64, Nat.shiftRight_eq_div_pow]

theorem toNat_mantissa (bits : BitVec 64) : (mantissa bits).toNat = bits.toNat % 2 ^ 52 := by
  simp [mantissa, unpackMantissa, layout, Format.binary64]

/-! ### The sign bit -/

section Opposite

variable {bits other : BitVec 64}

/-- Bits with the sign set, and the same bits without it. -/
theorem unpack_eq_neg_unpack (hset : bits.toNat = other.toNat + 2 ^ 63) :
    unpack layout bits = (unpack layout other).neg := by
  have hlt := bits.isLt
  have hnegative : sign bits = 1#1 := by
    refine BitVec.eq_of_toNat_eq ?_
    rw [toNat_sign]
    change _ = 1
    omega
  have hpositive : sign other = 0#1 := by
    refine BitVec.eq_of_toNat_eq ?_
    rw [toNat_sign]
    change _ = 0
    omega
  have hsign : Sign.ofBitVec (sign bits) = -Sign.ofBitVec (sign other) := by
    rw [hnegative, hpositive]
    rfl
  have hexponent : exponent bits = exponent other := by
    refine BitVec.eq_of_toNat_eq ?_
    rw [toNat_exponent, toNat_exponent]
    omega
  have hmantissa : mantissa bits = mantissa other := by
    refine BitVec.eq_of_toNat_eq ?_
    rw [toNat_mantissa, toNat_mantissa]
    omega
  unfold UnpackedFloat.unpack
  simp only [hsign, hexponent, hmantissa]
  split_ifs <;> rfl

/-- Bits whose exponent is not all ones are those of a finite number. -/
theorem valid_of_lt (hfinite : bits.toNat < 2047 * 2 ^ 52) : layout.Valid bits := by
  refine ⟨fun hones ↦ ?_⟩
  have hexponent : (exponent bits).toNat = 2047 := congrArg BitVec.toNat hones
  rw [toNat_exponent] at hexponent
  omega

end Opposite

theorem neg_ofBits {bits other : UInt64} (hset : bits.toNat = other.toNat + 2 ^ 63)
    (hfinite : other.toNat < 2047 * 2 ^ 52) : -Float.ofBits other = Float.ofBits bits := by
  have hpack := pack_unpack other.toBitVec (valid_of_lt hfinite)
  have hunpack : (Float.Model.ofBits other).unpack = unpack layout other.toBitVec :=
    congrArg (unpack layout) hpack
  have hneg : -Float.Model.ofBits other = Float.Model.ofBits bits := by
    change Float.Model.pack (Float.Model.ofBits other).unpack.neg = _
    rw [hunpack, ← unpack_eq_neg_unpack hset]
    rfl
  exact congrArg Float.ofModel hneg

end Lox.Bits
