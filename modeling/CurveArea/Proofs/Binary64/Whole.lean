import CurveArea.Proofs.Binary64.Unsigned

/-!
# Whole numbers

Rounding drops no digit of a mantissa that ends in zeros where it is too long. So a whole number of
at most 53 bits is converted exactly, and in particular not to zero, infinity or NaN: dividing by it
is dividing by a positive number.
-/

namespace CurveArea.Binary64

open Float.Model (UnpackedFloat Format totalExponent)
open Float.Model.UnpackedFloat (Sign ExtendedMantissa)

variable {mantissa : Nat} {exponent : Int}

/-- Zeros that are shifted out leave no rest. -/
theorem shiftRight_mul_two_pow (m k : Nat) :
    (⟨m * 2 ^ k, false, false⟩ : ExtendedMantissa) >>> k = ⟨m, false, false⟩ := by
  induction k generalizing m with
  | zero => rw [Nat.pow_zero, Nat.mul_one]; rfl
  | succ k ih =>
    have shifted := ih (m * 2)
    rw [Nat.mul_assoc, ← Nat.pow_succ'] at shifted
    change ((⟨m * 2 ^ (k + 1), false, false⟩ : ExtendedMantissa) >>> k).shiftRightOne = _
    rw [shifted, ExtendedMantissa.shiftRightOne]
    simp

theorem log2_mul_two_pow {m : Nat} (positive : 0 < m) (k : Nat) :
    (m * 2 ^ k).log2 = m.log2 + k := by
  induction k with
  | zero => simp
  | succ k ih =>
    have nonzero : m * 2 ^ k ≠ 0 := Nat.ne_of_gt (Nat.mul_pos positive (Nat.two_pow_pos k))
    rw [Nat.pow_succ', Nat.mul_left_comm, Nat.log2_two_mul nonzero, ih]
    omega

/-- Rounding aims at 53 digits, but not below the least exponent. -/
theorem targetExponent_eq (m : Nat) (e : Int) :
    Format.binary64.targetExponent (totalExponent m e) =
      max ((m.log2 : Int) + 1 + e - 53) (-1074) := rfl

/-- Canonical parts are aimed at by rounding. -/
theorem targetExponent_of_canonical (canonical : Canonical mantissa exponent)
    (positive : 0 < mantissa) :
    Format.binary64.targetExponent (totalExponent mantissa exponent) = exponent := by
  obtain ⟨mantissa_lt, minExponent_le, -, leading⟩ := canonical
  have below : mantissa.log2 < 53 := (Nat.log2_lt (Nat.ne_of_gt positive)).mpr mantissa_lt
  rw [targetExponent_eq]
  change -1074 ≤ exponent at minExponent_le
  rcases leading with normal | least
  · have above : 52 ≤ mantissa.log2 := (Nat.le_log2 (Nat.ne_of_gt positive)).mpr normal
    omega
  · change exponent = -1074 at least
    omega

/-- A mantissa that is canonical but for zeros at its end is rounded to the canonical one. -/
theorem roundWithAccuracy_shifted (canonical : Canonical mantissa exponent)
    (positive : 0 < mantissa) (sign : Sign) (k : Nat) :
    UnpackedFloat.roundWithAccuracy .binary64 sign (mantissa * 2 ^ k) (exponent - k) .exact =
      .finite sign mantissa exponent positive := by
  have aim := targetExponent_of_canonical canonical positive
  have total : totalExponent (mantissa * 2 ^ k) (exponent - k) = totalExponent mantissa exponent := by
    rw [totalExponent, totalExponent, log2_mul_two_pow positive]
    omega
  have steps : (exponent - (exponent - (k : Int))).toNat = k := by omega
  have first : UnpackedFloat.shiftToTargetExponent .binary64 (mantissa * 2 ^ k) (exponent - k)
      .exact = (⟨mantissa, false, false⟩, exponent) := by
    simp only [UnpackedFloat.shiftToTargetExponent, UnpackedFloat.shiftToExponent, total, aim, steps]
    refine Prod.ext (shiftRight_mul_two_pow mantissa k) ?_
    change exponent - (k : Int) + k = exponent
    omega
  have second : UnpackedFloat.shiftToTargetExponent .binary64 mantissa exponent .exact =
      (⟨mantissa, false, false⟩, exponent) := by
    have still : (exponent - exponent).toNat = 0 := by omega
    simp only [UnpackedFloat.shiftToTargetExponent, UnpackedFloat.shiftToExponent, aim, still]
    refine Prod.ext rfl ?_
    change exponent + ((0 : Nat) : Int) = exponent
    omega
  have rounded : (⟨mantissa, false, false⟩ : ExtendedMantissa).roundedMantissa = mantissa := rfl
  rw [UnpackedFloat.roundWithAccuracy, first]
  simp only [rounded, second]
  exact dif_neg (Nat.ne_of_gt positive)

/-- The mantissa of a whole number: as many zeros behind it as make up 53 bits. -/
theorem canonical_whole {n : Nat} (positive : 0 < n) (small : n < 2 ^ 53) :
    Canonical (n * 2 ^ (52 - n.log2)) ((n.log2 : Int) - 52) := by
  have nonzero := Nat.ne_of_gt positive
  have below : n.log2 < 53 := (Nat.log2_lt nonzero).mpr small
  have width : (n * 2 ^ (52 - n.log2)).log2 = 52 := by
    rw [log2_mul_two_pow positive]
    omega
  have ⟨low, high⟩ := (Nat.log2_eq_iff
    (Nat.ne_of_gt (Nat.mul_pos positive (Nat.two_pow_pos _)))).mp width
  refine ⟨high, ?_, ?_, .inl low⟩
  · change -1074 ≤ (n.log2 : Int) - 52
    omega
  · omega

/-- A whole number of at most 53 bits is converted exactly. -/
theorem value_toFloat {n : Nat} (positive : 0 < n) (small : n < 2 ^ 53) :
    value n.toUInt64.toFloat =
      .finite false (n * 2 ^ (52 - n.log2)) ((n.log2 : Int) - 52) := by
  have word : n.toUInt64.toNat = n :=
    UInt64.toNat_ofNat_of_lt' (Nat.lt_trans small (by decide))
  have canonical := canonical_whole positive small
  have padded : 0 < n * 2 ^ (52 - n.log2) := Nat.mul_pos positive (Nat.two_pow_pos _)
  have below : n.log2 < 53 := (Nat.log2_lt (Nat.ne_of_gt positive)).mpr small
  have aim : Format.binary64.targetExponent (totalExponent n 0) = (n.log2 : Int) - 52 := by
    rw [targetExponent_eq]
    omega
  have steps : (0 - ((n.log2 : Int) - 52)).toNat = 52 - n.log2 := by omega
  have level : (0 : Int) - ((52 - n.log2 : Nat) : Int) = (n.log2 : Int) - 52 := by omega
  have rounded : UnpackedFloat.normalize .binary64 (n.toUInt64.toNat : Int) 0 .positive =
      .finite .positive (n * 2 ^ (52 - n.log2)) ((n.log2 : Int) - 52) padded := by
    have above : compare (n : Int) 0 = .gt := Int.compare_eq_gt.mpr (by omega)
    have exact := roundWithAccuracy_shifted canonical padded .positive 0
    rw [Nat.pow_zero, Nat.mul_one, Int.natCast_zero, Int.sub_zero] at exact
    rw [word]
    simp only [UnpackedFloat.normalize, above, Int.toNat_natCast, UnpackedFloat.round,
      UnpackedFloat.decreaseExponent, aim, steps, level, Nat.shiftLeft_eq]
    exact exact
  have opened : n.toUInt64.toFloat =
      packed (UnpackedFloat.normalize .binary64 (n.toUInt64.toNat : Int) 0 .positive) := rfl
  have exactly : value (packed (.finite (signOf false) _ _ padded)) = _ := value_pack canonical padded
  rw [opened, rounded]
  exact exactly

variable {x : Float} {negative : Bool}

/-- One changes no number that it is multiplied with. -/
theorem mul_one_of_value (h : value x = .finite negative mantissa exponent)
    (positive : 0 < mantissa) : x * 1.0 = x := by
  have canonical := (parts_of_value h).1
  have one : unpacked 1.0 = .finite .positive (2 ^ 52) (-52) (Nat.two_pow_pos 52) := by rfl
  have whole : unpacked x = .finite (signOf negative) mantissa exponent positive :=
    unpack_of_value h positive
  have plus : signOf negative * .positive = signOf negative := by cases negative <;> rfl
  have product : UnpackedFloat.mul .binary64 (unpacked x) (unpacked 1.0) = unpacked x := by
    rw [one, whole, UnpackedFloat.mul, plus]
    exact roundWithAccuracy_shifted canonical positive _ 52
  rw [mul_eq_packed, product, packed_unpacked]

theorem value_ofNat {n : Nat} (positive : 0 < n) (small : n < 2 ^ 53) :
    value (Float.ofNat n) = .finite false (n * 2 ^ (52 - n.log2)) ((n.log2 : Int) - 52) := by
  have converted := value_toFloat positive small
  have padded : 0 < n * 2 ^ (52 - n.log2) := Nat.mul_pos positive (Nat.two_pow_pos _)
  have direct : Float.ofNat n = n.toUInt64.toFloat * 1.0 := by
    change Float.ofScientific n false 0 = _
    rw [Float.ofScientific, dif_pos ⟨small, by omega⟩]
    rfl
  rw [direct, mul_one_of_value converted padded, converted]

/-- Zero over a positive whole number is zero. -/
theorem zero_div_ofNat {n : Nat} (positive : 0 < n) (small : n < 2 ^ 53) :
    0.0 / Float.ofNat n = 0.0 := by
  have padded : 0 < n * 2 ^ (52 - n.log2) := Nat.mul_pos positive (Nat.two_pow_pos _)
  have divisor : unpacked (Float.ofNat n) = _ := unpack_of_value (value_ofNat positive small) padded
  rw [div_eq_packed, divisor]
  rfl

end CurveArea.Binary64
