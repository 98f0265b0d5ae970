import CurveArea.Scalar
import Mathlib

/-!
# The parts of a binary64 number

A finite number has a canonical mantissa and exponent, and its bits are one sum of the sign bit, the
exponent and the mantissa. Taking a number apart and putting it together are inverse to each other,
so what the arithmetic does to a sign, to zero and to one can be read off the parts.
-/

namespace CurveArea.Binary64

open Float.Model (UnpackedFloat)
open Float.Model.UnpackedFloat (Sign unpackMantissa unpackExponent unpackSign packComponents)

/-- The parts of a finite number: the mantissa has 53 bits and its leading bit is set, unless the
exponent is the smallest one. -/
structure Canonical (mantissa : Nat) (exponent : Int) : Prop where
  mantissa_lt : mantissa < 2 * leadingBit
  minExponent_le : minExponent ≤ exponent
  exponent_le : exponent ≤ 971
  leading : leadingBit ≤ mantissa ∨ exponent = minExponent

/-- The bits of a positive number with given parts. -/
def magnitudeBits (mantissa : Nat) (exponent : Int) : Nat :=
  (exponent - minExponent).toNat * leadingBit + mantissa

/-- The positive number with given parts. -/
def magnitude (mantissa : Nat) (exponent : Int) : Float := ofBits (magnitudeBits mantissa exponent)

/-- The bits of a finite number, its sign bit included. -/
def finiteBits (negative : Bool) (mantissa : Nat) (exponent : Int) : Nat :=
  (if negative then signBit else 0) + magnitudeBits mantissa exponent

variable {x y : Float} {negative : Bool} {mantissa : Nat} {exponent : Int}

theorem magnitudeBits_lt (canonical : Canonical mantissa exponent) :
    magnitudeBits mantissa exponent < infinityBits := by
  have mantissa_lt := canonical.mantissa_lt
  have exponent_le := canonical.exponent_le
  simp only [magnitudeBits, minExponent, leadingBit, infinityBits] at *
  omega

theorem toBits_ofBits {bits : Nat} (h : bits ≤ infinityBits) : (ofBits bits).toBits.toNat = bits := by
  have small : bits < 2 ^ 64 := Nat.lt_of_le_of_lt h (by decide)
  simp only [ofBits, Float.toBits, Nat.min_eq_left h]
  exact UInt64.toNat_ofNat_of_lt' small

theorem eq_of_toBits (h : x.toBits.toNat = y.toBits.toNat) : x = y :=
  Float.toBits_inj.mp (UInt64.toNat_inj.mp h)

/-- The sign bit is what the bits hold above the others. -/
private theorem sign_of_toBits (x : Float) :
    (if decide (signBit ≤ x.toBits.toNat) = true then signBit else 0) =
      x.toBits.toNat / signBit * signBit := by
  have bound : x.toBits.toNat < 2 * signBit := x.toBits.toNat_lt
  by_cases negative : signBit ≤ x.toBits.toNat
  · rw [if_pos (by simpa using negative)]
    simp only [signBit] at *
    omega
  · rw [if_neg (by simpa using negative)]
    simp only [signBit] at *
    omega

/-- The parts of a finite number are canonical and make up its bits. -/
theorem parts_of_value (h : value x = .finite negative mantissa exponent) :
    Canonical mantissa exponent ∧ x.toBits.toNat = finiteBits negative mantissa exponent := by
  simp only [value] at h
  split at h
  · split at h <;> cases h
  · next notSpecial =>
    split at h
    · next subnormal =>
      cases h
      rw [finiteBits, sign_of_toBits]
      refine ⟨⟨?_, ?_, ?_, .inr rfl⟩, ?_⟩
      all_goals
        simp only [signBit, leadingBit, minExponent, magnitudeBits] at *
        omega
    · next normal =>
      cases h
      rw [finiteBits, sign_of_toBits]
      refine ⟨⟨?_, ?_, ?_, .inl (Nat.le_add_right ..)⟩, ?_⟩
      all_goals
        simp only [signBit, leadingBit, minExponent, magnitudeBits] at *
        omega

/-- Canonical parts are those of the number whose bits they make up. -/
theorem value_of_parts (canonical : Canonical mantissa exponent)
    (bits : x.toBits.toNat = finiteBits negative mantissa exponent) :
    value x = .finite negative mantissa exponent := by
  have ⟨mantissa_lt, minExponent_le, exponent_le, leading⟩ := canonical
  have small := magnitudeBits_lt canonical
  have sign : decide (signBit ≤ x.toBits.toNat) = negative := by
    rw [bits, finiteBits]
    simp only [infinityBits] at small
    cases negative
    · simp [signBit]
      omega
    · simp
  have unsigned : x.toBits.toNat % signBit = magnitudeBits mantissa exponent := by
    rw [bits, finiteBits]
    simp only [signBit, infinityBits] at *
    cases negative <;> simp <;> omega
  have fraction : x.toBits.toNat % leadingBit = magnitudeBits mantissa exponent % leadingBit := by
    rw [← unsigned, Nat.mod_mod_of_dvd]
    exact ⟨2048, rfl⟩
  have notSpecial : magnitudeBits mantissa exponent / leadingBit ≠ 2047 := by
    simp only [infinityBits, leadingBit] at *
    omega
  simp only [value, sign, unsigned, fraction, if_neg notSpecial]
  split
  · next subnormal =>
    simp only [magnitudeBits, leadingBit, minExponent, Value.finite.injEq, true_and] at *
    omega
  · next normal =>
    simp only [magnitudeBits, leadingBit, minExponent, Value.finite.injEq, true_and] at *
    omega

/-- Numbers with the same finite parts are the same. -/
theorem eq_of_value (hx : value x = .finite negative mantissa exponent)
    (hy : value y = .finite negative mantissa exponent) : x = y :=
  eq_of_toBits ((parts_of_value hx).2.trans (parts_of_value hy).2.symm)

theorem value_magnitude (canonical : Canonical mantissa exponent) :
    value (magnitude mantissa exponent) = .finite false mantissa exponent := by
  apply value_of_parts canonical
  rw [magnitude, toBits_ofBits (Nat.le_of_lt (magnitudeBits_lt canonical)), finiteBits]
  simp

/-- A number without a mantissa is one of the two zeros. -/
theorem eq_zero_of_value (h : value x = .finite negative 0 exponent) : x = 0.0 ∨ x = -0.0 := by
  obtain ⟨canonical, bits⟩ := parts_of_value h
  have least : exponent = minExponent := canonical.leading.resolve_left (by decide)
  rw [finiteBits, magnitudeBits, least] at bits
  cases negative with
  | false => exact .inl (eq_of_toBits bits)
  | true => exact .inr (eq_of_toBits bits)

/-! ## Unpacking and packing -/

theorem toNat_unpackMantissa (bits : BitVec 64) :
    (@unpackMantissa .binary64 bits).toNat = bits.toNat % leadingBit := by
  simp [unpackMantissa, BitVec.extractLsb, BitVec.extractLsb', leadingBit]

theorem toNat_unpackExponent (bits : BitVec 64) :
    (@unpackExponent .binary64 bits).toNat = bits.toNat % signBit / leadingBit := by
  simp [unpackExponent, BitVec.extractLsb, BitVec.extractLsb', Nat.shiftRight_eq_div_pow,
    leadingBit, signBit]
  omega

/-- A sign as core's numbers have it. -/
def signOf (negative : Bool) : Sign := if negative then .negative else .positive

theorem ofBitVec_unpackSign (bits : BitVec 64) :
    Sign.ofBitVec (@unpackSign .binary64 bits) = signOf (decide (signBit ≤ bits.toNat)) := by
  have bound : bits.toNat < 2 * signBit := bits.isLt
  have top : (@unpackSign .binary64 bits).toNat = bits.toNat / signBit % 2 := by
    simp [unpackSign, BitVec.extractLsb, BitVec.extractLsb', Nat.shiftRight_eq_div_pow, signBit]
  by_cases negative : signBit ≤ bits.toNat
  · have one : @unpackSign .binary64 bits ≠ 0#1 := by
      rw [Ne, ← BitVec.toNat_inj, top]
      simp only [signBit] at *
      simp
      omega
    simp [Sign.ofBitVec, signOf, one, negative]
  · have zero : @unpackSign .binary64 bits = 0#1 := by
      rw [← BitVec.toNat_inj, top]
      simp only [signBit] at *
      simp
      omega
    simp [Sign.ofBitVec, signOf, zero, negative]

theorem toNat_one_append (fraction : BitVec 52) :
    (1#1 ++ fraction).toNat = leadingBit + fraction.toNat := by
  rw [BitVec.toNat_append, ← Nat.shiftLeft_add_eq_or_of_lt fraction.isLt]
  simp [Nat.shiftLeft_eq, leadingBit]

/-- A number that is not zero is unpacked into its parts. -/
theorem unpack_of_value (h : value x = .finite negative mantissa exponent)
    (positive : 0 < mantissa) :
    x.toModel.unpack = .finite (signOf negative) mantissa exponent positive := by
  have bits : x.toModel.toBits.toBitVec.toNat = x.toBits.toNat := rfl
  have hexponent := toNat_unpackExponent x.toModel.toBits.toBitVec
  have hmantissa := toNat_unpackMantissa x.toModel.toBits.toBitVec
  rw [bits] at hexponent hmantissa
  simp only [value] at h
  simp only [Float.Model.unpack, UnpackedFloat.unpack, ofBitVec_unpackSign, bits]
  split at h
  · split at h <;> cases h
  · next notSpecial =>
    have finite : @unpackExponent .binary64 x.toModel.toBits.toBitVec ≠ -1#_ := by
      intro special
      rw [special] at hexponent
      exact notSpecial hexponent.symm
    rw [if_neg finite]
    split at h
    · next subnormal =>
      cases h
      have least : @unpackExponent .binary64 x.toModel.toBits.toBitVec = 0#_ := by
        apply BitVec.eq_of_toNat_eq
        rw [hexponent, subnormal]
        rfl
      have nonzero : @unpackMantissa .binary64 x.toModel.toBits.toBitVec ≠ 0#_ := by
        intro zero
        rw [zero] at hmantissa
        exact Nat.ne_of_gt positive hmantissa.symm
      rw [if_pos least, dif_neg nonzero]
      simp only [hmantissa, least]
      rfl
    · next normal =>
      cases h
      have above : @unpackExponent .binary64 x.toModel.toBits.toBitVec ≠ 0#_ := by
        intro least
        rw [least] at hexponent
        exact normal hexponent.symm
      rw [if_neg above]
      simp only [toNat_one_append, hmantissa, hexponent]
      rfl

theorem toNat_packComponents (negative : Bool) (exponent : BitVec 11) (mantissa : BitVec 52) :
    (packComponents .binary64 (signOf negative) exponent mantissa).toNat =
      (if negative then signBit else 0) + (exponent.toNat * leadingBit + mantissa.toNat) := by
  have hexponent := exponent.isLt
  simp only [packComponents, BitVec.toNat_append]
  rw [← Nat.shiftLeft_add_eq_or_of_lt mantissa.isLt, ← Nat.shiftLeft_add_eq_or_of_lt exponent.isLt]
  cases negative with
  | false => simp [signOf, Sign.toBitVec, Nat.shiftLeft_eq, leadingBit]
  | true =>
    simp [signOf, Sign.toBitVec, Nat.shiftLeft_eq, signBit, leadingBit]
    omega

/-- Packing canonical parts gives the number with these parts. -/
theorem value_pack (canonical : Canonical mantissa exponent) (positive : 0 < mantissa) :
    value ⟨Float.Model.pack (.finite (signOf negative) mantissa exponent positive)⟩ =
      .finite negative mantissa exponent := by
  apply value_of_parts canonical
  have ⟨mantissa_lt, minExponent_le, exponent_le, leading⟩ := canonical
  have biased : (exponent + Float.Model.Format.exponentBias .binary64 +
      Float.Model.Format.mantissaBitsWithoutImplicit .binary64).toNat = (exponent + 1075).toNat := by
    show (exponent + (1023 : Nat) + (52 : Nat)).toNat = _
    omega
  show (UnpackedFloat.pack .binary64 _).toNat = _
  simp only [UnpackedFloat.pack, biased]
  simp only [minExponent, leadingBit] at *
  rw [if_neg (by omega), finiteBits, magnitudeBits]
  by_cases normal : 0x10000000000000 ≤ mantissa
  · have log : mantissa.log2 = 52 := by
      rw [Nat.log2_eq_iff (by omega)]
      omega
    have width : mantissa.log2 + 1 = Float.Model.Format.mantissaBits .binary64 := by
      rw [log]
      rfl
    rw [if_pos width, toNat_packComponents]
    simp only [BitVec.toNat_ofNat, leadingBit, minExponent]
    omega
  · have log : mantissa.log2 < 52 := by
      rw [Nat.log2_lt (by omega)]
      omega
    have other : ¬ mantissa.log2 + 1 = Float.Model.Format.mantissaBits .binary64 := by
      show ¬ mantissa.log2 + 1 = 53
      omega
    rw [if_neg other, toNat_packComponents]
    simp only [BitVec.toNat_ofNat, leadingBit, minExponent]
    simp
    omega

/-! ## Signs, zero and equality -/

theorem neg_signOf (negative : Bool) : -signOf negative = signOf (!negative) := by
  cases negative <;> rfl

theorem value_neg (h : value x = .finite negative mantissa exponent) (positive : 0 < mantissa) :
    value (-x) = .finite (!negative) mantissa exponent := by
  have opened : -x = ⟨Float.Model.pack x.toModel.unpack.neg⟩ := rfl
  rw [opened, unpack_of_value h positive, UnpackedFloat.neg, neg_signOf]
  exact value_pack (parts_of_value h).1 positive

/-- The exponent of a finite number is not the one that marks infinity and NaN. -/
theorem exists_value_of_isFinite (h : x.isFinite = true) :
    ∃ negative mantissa exponent, value x = .finite negative mantissa exponent := by
  have notSpecial : x.toBits.toNat % signBit / leadingBit ≠ 2047 := by
    intro special
    have marked : @unpackExponent .binary64 x.toModel.toBits.toBitVec = -1#_ := by
      apply BitVec.eq_of_toNat_eq
      rw [toNat_unpackExponent]
      exact special
    have opened : (UnpackedFloat.unpack .binary64 x.toModel.toBits.toBitVec).isFinite = true := h
    rw [UnpackedFloat.unpack, if_pos marked] at opened
    split at opened <;> cases opened
  simp only [value, if_neg notSpecial]
  split
  · exact ⟨_, _, _, rfl⟩
  · exact ⟨_, _, _, rfl⟩

/-- Bits below those of infinity are the bits of a finite number. -/
theorem isFinite_ofBits {bits : Nat} (below : bits < infinityBits) :
    (ofBits bits).isFinite = true := by
  have notSpecial : @unpackExponent .binary64 (ofBits bits).toModel.toBits.toBitVec ≠ -1#_ := by
    intro special
    have biased := congrArg BitVec.toNat special
    rw [toNat_unpackExponent] at biased
    change (ofBits bits).toBits.toNat % signBit / leadingBit = 2047 at biased
    rw [toBits_ofBits (Nat.le_of_lt below)] at biased
    simp only [signBit, leadingBit, infinityBits] at biased below
    omega
  show (UnpackedFloat.unpack .binary64 (ofBits bits).toModel.toBits.toBitVec).isFinite = true
  rw [UnpackedFloat.unpack, if_neg notSpecial]
  split
  · split <;> rfl
  · rfl

/-- Bits that are not those of a finite number give infinity. -/
theorem ofBits_eq_infinity {bits : Nat} (infinite : (ofBits bits).isFinite = false) :
    ofBits bits = infinity := by
  have beyond : infinityBits ≤ bits := by
    refine Nat.le_of_not_lt fun below => ?_
    rw [isFinite_ofBits below] at infinite
    cases infinite
  simp only [infinity, ofBits, Nat.min_eq_right beyond, Nat.min_self]

theorem isFinite_of_value (h : value x = .finite negative mantissa exponent)
    (positive : 0 < mantissa) : x.isFinite = true := by
  show x.toModel.unpack.isFinite = true
  rw [unpack_of_value h positive]
  rfl

theorem zero_add_of_value (h : value x = .finite negative mantissa exponent)
    (positive : 0 < mantissa) : 0.0 + x = x := by
  have zero : (0.0 : Float).toModel.unpack = .zero .positive := rfl
  have opened : 0.0 + x =
      ⟨Float.Model.pack (UnpackedFloat.add .binary64 (0.0 : Float).toModel.unpack x.toModel.unpack)⟩ :=
    rfl
  have absorbed : UnpackedFloat.add .binary64 (.zero .positive) x.toModel.unpack =
      x.toModel.unpack := by
    rw [unpack_of_value h positive]
    rfl
  rw [opened, zero, absorbed]
  exact Float.ofBits_toBits x

theorem lt_zero_iff (h : value x = .finite negative mantissa exponent) (positive : 0 < mantissa) :
    x < 0.0 ↔ negative = true := by
  have zero : (0.0 : Float).toModel.unpack = .zero .positive := rfl
  have opened : x < 0.0 ↔ x.toModel.unpack.lt (0.0 : Float).toModel.unpack = true :=
    decide_eq_true_iff
  rw [opened, zero, unpack_of_value h positive]
  cases negative <;> simp [UnpackedFloat.lt, UnpackedFloat.compare, signOf]

/-- A number with finite parts is not NaN, so it equals itself. -/
theorem beq_self_of_value (h : value x = .finite negative mantissa exponent) : (x == x) = true := by
  rw [Float.beq_self_iff]
  rintro rfl
  have special : value Float.nan = .nan := by decide +kernel
  rw [special] at h
  cases h

/-- Only zero equals a number other than itself. -/
theorem eq_of_beq (same : (x == y) = true) (nonzero : y ≠ 0 ∧ y ≠ -0) : x = y := by
  obtain ⟨-, -, same | ⟨-, zero⟩ | ⟨-, zero⟩⟩ := Float.beq_iff_ne_nan_and_eq.mp same
  · exact same
  · exact absurd zero nonzero.2
  · exact absurd zero nonzero.1

end CurveArea.Binary64
