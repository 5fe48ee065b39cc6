import Mathlib
import RecordPath.Decimal.BinaryFormat
import RecordPath.Json.Numeral

namespace RecordPath.Double

open Float.Model UnpackedFloat

section Components

variable {spec : Format} {sign : Sign} {e : BitVec spec.exponentBits}
  {m : BitVec spec.mantissaBitsWithoutImplicit}

theorem toNat_packComponents : (packComponents spec sign e m).toNat =
    2 ^ spec.mantissaBitsWithoutImplicit *
      (2 ^ spec.exponentBits * sign.toBitVec.toNat + e.toNat) + m.toNat := by
  rw [packComponents, BitVec.toNat_append, BitVec.toNat_append, Nat.shiftLeft_eq, Nat.shiftLeft_eq,
    Nat.mul_comm _ (2 ^ spec.mantissaBitsWithoutImplicit), ← Nat.two_pow_add_eq_or_of_lt m.isLt,
    Nat.mul_comm _ (2 ^ spec.exponentBits), ← Nat.two_pow_add_eq_or_of_lt e.isLt]

theorem neg_unpack : (UnpackedFloat.unpack spec (packComponents spec sign e m)).neg =
    UnpackedFloat.unpack spec (packComponents spec (-sign) e m) := by
  simp only [UnpackedFloat.unpack, unpackExponent_packComponents, unpackMantissa_packComponents,
    unpackSign_packComponents, Sign.ofBitVec_toBitVec]
  split
  · split <;> rfl
  · split
    · split <;> rfl
    · rfl

theorem exponent_of_isFinite
    (h : (UnpackedFloat.unpack spec (packComponents spec sign e m)).isFinite = true) :
    e ≠ -1#_ := by
  rintro rfl
  simp only [UnpackedFloat.unpack, unpackExponent_packComponents, if_true] at h
  split at h <;> cases h

theorem isNaNBits_of_valid (valid : spec.Valid (packComponents spec .negative e m)) :
    isNaNBits (packComponents spec .positive e m) = false := by
  rw [← Bool.not_eq_true]
  intro nan
  simp only [isNaNBits, unpackExponent_packComponents, unpackMantissa_packComponents,
    decide_eq_true_eq] at nan
  have canonical := valid.eq_packedNaN (by rw [unpackExponent_packComponents, nan.1])
    (by rw [unpackMantissa_packComponents]; exact nan.2)
  have signs := congrArg unpackSign canonical
  rw [packedNaN, unpackSign_packComponents, unpackSign_packComponents] at signs
  cases signs

end Components

theorem exists_bits (x : Float) : ∃ sign e m,
    x.toBits.toBitVec = packComponents Format.binary64 sign e m ∧
      x.toBits.toNat = 2 ^ 63 * sign.toBitVec.toNat + (2 ^ 52 * e.toNat + m.toNat) ∧
        e.toNat < 2 ^ 11 ∧ m.toNat < 2 ^ 52 := by
  have bits := @packComponents_unpackSign_unpackExponent_unpackMantissa Format.binary64
    x.toBits.toBitVec
  refine ⟨_, _, _, bits.symm, ?_, (unpackExponent _).isLt, (unpackMantissa _).isLt⟩
  have value := congrArg BitVec.toNat bits.symm
  rw [toNat_packComponents] at value
  refine value.trans ?_
  change 2 ^ 52 * (2 ^ 11 * _ + _) + _ = _
  ring

theorem neg_ofBits {bits : UInt64} {e : BitVec Format.binary64.exponentBits}
    {m : BitVec Format.binary64.mantissaBitsWithoutImplicit}
    (magnitude : bits.toBitVec = packComponents Format.binary64 .positive e m)
    (valid : Format.binary64.Valid (packComponents Format.binary64 .negative e m)) :
    (-Float.ofBits bits).toBits.toBitVec = packComponents Format.binary64 .negative e m := by
  change UnpackedFloat.pack Format.binary64 (UnpackedFloat.unpack Format.binary64
    (UnpackedFloat.pack Format.binary64 (UnpackedFloat.unpack Format.binary64
      bits.toBitVec))).neg = _
  rw [magnitude, pack_unpack, isNaNBits_of_valid valid, if_neg Bool.false_ne_true, neg_unpack]
  exact pack_unpack_of_valid valid

theorem signed_magnitude (x : Float) :
    Numeral.signed (decide (BinaryFormat.double.signBit ≤ x.toBits.toNat))
      (Float.ofBits (UInt64.ofNat (x.toBits.toNat % BinaryFormat.double.signBit))) = x := by
  obtain ⟨sign, e, m, bits, value, he, hm⟩ := exists_bits x
  have signBit : BinaryFormat.double.signBit = 2 ^ 63 := rfl
  cases sign with
  | positive =>
      have below : x.toBits.toNat < 2 ^ 63 := by
        have zero : Sign.positive.toBitVec.toNat = 0 := rfl
        omega
      rw [signBit, Nat.mod_eq_of_lt below, decide_eq_false (Nat.not_le.2 below),
        UInt64.ofNat_toNat]
      exact Float.ofBits_toBits x
  | negative =>
      have above : x.toBits.toNat = 2 ^ 63 + (2 ^ 52 * e.toNat + m.toNat) := by
        have one : Sign.negative.toBitVec.toNat = 1 := rfl
        omega
      have magnitude : (UInt64.ofNat (x.toBits.toNat % 2 ^ 63)).toBitVec =
          packComponents Format.binary64 .positive e m := by
        refine BitVec.eq_of_toNat_eq ?_
        rw [toNat_packComponents]
        change x.toBits.toNat % 2 ^ 63 % 2 ^ 64 = 2 ^ 52 * (2 ^ 11 * 0 + e.toNat) + m.toNat
        omega
      rw [signBit, decide_eq_true (by omega)]
      refine Float.toBits_inj.1 (UInt64.toBitVec_inj.1 ?_)
      rw [bits]
      exact neg_ofBits magnitude (bits ▸ x.toModel.valid)

theorem magnitude_lt_infinite {x : Float} (finite : x.isFinite = true) :
    x.toBits.toNat % BinaryFormat.double.signBit < BinaryFormat.double.infinite := by
  obtain ⟨sign, e, m, bits, value, he, hm⟩ := exists_bits x
  have exponent : e ≠ -1#_ := by
    refine @exponent_of_isFinite Format.binary64 sign e m ?_
    rw [← bits]
    exact finite
  have below : e.toNat < 2 ^ 11 - 1 := by
    have := mt BitVec.eq_of_toNat_eq exponent
    change e.toNat ≠ 2 ^ 11 - 1 at this
    omega
  change x.toBits.toNat % 2 ^ 63 < (2 ^ 11 - 1) * 2 ^ 52
  omega

end RecordPath.Double
