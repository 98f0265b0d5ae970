import CurveArea.Proofs.Binary64.Sums

/-!
# Products, quotients and whole numbers

A product of two finite numbers is their exact product, rounded, a quotient is their exact quotient,
rounded, and a whole number is converted to what it is rounded to. For a quotient the remainder of
the integer division tells whether the rest is more than half of the last place.
-/

namespace CurveArea.Binary64

open Float.Model (UnpackedFloat Format totalExponent)
open Float.Model.UnpackedFloat (Sign accuracyOfFraction)

variable {x y : Float} {s t : Sign} {m n : Nat} {e k : Int}

theorem isRounding_zero (sign : Sign) : IsRounding 0 (packed (.zero sign)) := by
  cases sign with
  | negative => exact .of_toRat (x := -0.0) rfl
  | positive => exact .zero

theorem isFinite_zero (sign : Sign) : (packed (.zero sign)).isFinite = true := by
  cases sign <;> decide +kernel

theorem apply_mul_apply (s t : Sign) :
    ((s.apply 1 : Int) : ℚ) * (t.apply 1 : Int) = ((s * t).apply 1 : Int) := by
  cases s <;> cases t <;> decide +kernel

theorem apply_div_apply (s t : Sign) :
    ((s.apply 1 : Int) : ℚ) / (t.apply 1 : Int) = ((s / t).apply 1 : Int) := by
  cases s <;> cases t <;> decide +kernel

/-- A product of mantissas has enough digits, if its place is not that of the least numbers. -/
theorem roundedParts_mul (wide : 2 ^ 52 ≤ m * n ∨ e + k ≤ minExponent) (sign : Sign) :
    RoundedParts (m * 2 ^ e * (n * 2 ^ k)) sign
      (UnpackedFloat.roundWithAccuracy .binary64 sign (m * n) (e + k) .exact) := by
  have finer : e + k ≤ Format.binary64.targetExponent (totalExponent (m * n) (e + k)) := by
    rw [targetExponent_eq]
    rcases wide with digits | least
    · have long : 52 ≤ (m * n).log2 := (Nat.le_log2 (by omega)).mpr digits
      omega
    · exact le_max_of_le_right least
  refine roundedParts_roundWithAccuracy ?_ finer sign
  change _ - _ = (0 : ℚ)
  rw [zpow_add₀ two_ne_zero]
  push_cast
  ring

/-- The product of two finite numbers is their exact product, rounded. -/
theorem isRounding_mul (hx : x.isFinite = true) (hy : y.isFinite = true) :
    IsRounding (toRat x * toRat y) (x * y) := by
  rcases unpacked_cases hx with ⟨s, first⟩ | ⟨s, m, e, positive, first, low⟩
  · rw [toRat_of_zero first, zero_mul, mul_eq_packed, first]
    rcases unpacked_cases hy with ⟨t, second⟩ | ⟨t, n, k, positive', second, -⟩
    · rw [second]
      exact isRounding_zero _
    · rw [second]
      exact isRounding_zero _
  · rcases unpacked_cases hy with ⟨t, second⟩ | ⟨t, n, k, positive', second, high⟩
    · rw [toRat_of_zero second, mul_zero, mul_eq_packed, first, second]
      exact isRounding_zero _
    · have wide : 2 ^ 52 ≤ m * n ∨ e + k ≤ minExponent := by
        rcases low.leading with leading | rfl
        · exact .inl (leading.trans (Nat.le_mul_of_pos_right m positive'))
        · rcases high.leading with leading | rfl
          · exact .inl (leading.trans (Nat.le_mul_of_pos_left n positive))
          · exact .inr (by decide)
      have value : toRat x * toRat y = (s * t).apply 1 * (m * 2 ^ e * (n * 2 ^ k)) := by
        rw [toRat_of_unpacked first, toRat_of_unpacked second, apply_eq_mul s, apply_eq_mul t,
          ← apply_mul_apply]
        ring
      rw [value, mul_eq_packed, first, second]
      exact (roundedParts_mul wide (s * t)).isRounding (by positivity)

/-- The remainder of a division tells what is behind the last place of the quotient. -/
theorem isRest_accuracyOfFraction (positive : 0 < n) {place : ℚ} (scale : 0 < place) :
    IsRest ((m % n : Nat) / n * place) place (accuracyOfFraction (m % n) n) := by
  have divisor : (0 : ℚ) < n := Nat.cast_pos.mpr positive
  have inside : ((m % n : Nat) : ℚ) / n * place < place := by
    refine mul_lt_of_lt_one_left scale ((div_lt_one divisor).mpr ?_)
    exact_mod_cast Nat.mod_lt m positive
  have double : 2 * ((m % n : Nat) / n * place) = (2 * (m % n) : Nat) / n * place := by
    push_cast
    ring
  rw [accuracyOfFraction]
  split
  · next zero =>
    rw [zero, Nat.cast_zero, zero_div, zero_mul]
    rfl
  · next some_rest =>
    have above : (0 : ℚ) < (m % n : Nat) / n * place :=
      mul_pos (div_pos (Nat.cast_pos.mpr (Nat.pos_of_ne_zero some_rest)) divisor) scale
    cases order : compare (2 * (m % n)) n with
    | lt =>
      refine ⟨above, ?_⟩
      rw [double]
      refine mul_lt_of_lt_one_left scale ((div_lt_one divisor).mpr ?_)
      exact_mod_cast Nat.compare_eq_lt.mp order
    | eq =>
      change 2 * _ = place
      rw [double, Nat.compare_eq_eq.mp order, div_self divisor.ne', one_mul]
    | gt =>
      refine ⟨?_, inside⟩
      rw [double]
      refine lt_mul_of_one_lt_left scale ((one_lt_div divisor).mpr ?_)
      exact_mod_cast Nat.compare_eq_gt.mp order

/-- An integer quotient of shifted mantissas has enough digits, and its remainder tells the rest. -/
theorem roundedParts_div (positive : 0 < m) (positive' : 0 < n) (sign : Sign) :
    RoundedParts (m * 2 ^ e / (n * 2 ^ k)) sign
      (UnpackedFloat.roundWithAccuracy .binary64 sign
        (UnpackedFloat.divCore .binary64 m e n k).1 (UnpackedFloat.divCore .binary64 m e n k).2.1
        (UnpackedFloat.divCore .binary64 m e n k).2.2) := by
  obtain ⟨target, aimed⟩ : ∃ target : Int, min (e - k) (Format.binary64.targetExponent
      (totalExponent m e - totalExponent n k)) = target := ⟨_, rfl⟩
  obtain ⟨shift, steps⟩ : ∃ shift : Nat, (e - k - target).toNat = shift := ⟨_, rfl⟩
  have width : e - k = target + shift := by omega
  have aimed' : target = min (e - k) (max ((m.log2 : Int) + 1 + e - ((n.log2 : Int) + 1 + k) - 53)
      (-1074)) := aimed.symm
  simp only [UnpackedFloat.divCore, aimed, steps, Nat.shiftLeft_eq]
  have finer : target ≤
      Format.binary64.targetExponent (totalExponent (m * 2 ^ shift / n) target) := by
    rw [targetExponent_eq]
    by_cases least : target ≤ -1074
    · exact le_max_of_le_right least
    · -- so many digits are put behind the dividend that the quotient has 53 of them
      have low := Nat.log2_self_le positive.ne'
      have high : n < 2 ^ (n.log2 + 1) := Nat.lt_log2_self
      have digits : 2 ^ 52 ≤ m * 2 ^ shift / n := by
        rw [Nat.le_div_iff_mul_le positive']
        calc 2 ^ 52 * n ≤ 2 ^ 52 * 2 ^ (n.log2 + 1) := Nat.mul_le_mul_left _ high.le
          _ = 2 ^ (n.log2 + 53) := by rw [← Nat.pow_add]; congr 1; omega
          _ ≤ 2 ^ (m.log2 + shift) := Nat.pow_le_pow_right two_pos (by omega)
          _ = 2 ^ m.log2 * 2 ^ shift := Nat.pow_add ..
          _ ≤ m * 2 ^ shift := Nat.mul_le_mul_right _ low
      have long : 52 ≤ (m * 2 ^ shift / n).log2 := (Nat.le_log2 (by omega)).mpr digits
      omega
  refine roundedParts_roundWithAccuracy ?_ finer sign
  have divisor : (n : ℚ) ≠ 0 := Nat.cast_ne_zero.mpr positive'.ne'
  have rest : (m : ℚ) * 2 ^ e / (n * 2 ^ k) - (m * 2 ^ shift / n : Nat) * 2 ^ target =
      (m * 2 ^ shift % n : Nat) / n * 2 ^ target := by
    have split : (n : ℚ) * (m * 2 ^ shift / n : Nat) + (m * 2 ^ shift % n : Nat) =
        m * 2 ^ shift := by exact_mod_cast Nat.div_add_mod (m * 2 ^ shift) n
    have scaled : (m : ℚ) * 2 ^ e / (n * 2 ^ k) = m * 2 ^ shift / n * 2 ^ target := by
      rw [mul_div_mul_comm, ← zpow_sub₀ two_ne_zero, width, two_zpow_add]
      ring
    rw [scaled, ← split]
    field_simp
    ring
  rw [rest]
  exact isRest_accuracyOfFraction positive' (zpow_pos two_pos target)

/-- The quotient of a finite number and one that is not zero is the exact quotient, rounded. -/
theorem isRounding_div (hx : x.isFinite = true) (hy : y.isFinite = true) (nonzero : toRat y ≠ 0) :
    IsRounding (toRat x / toRat y) (x / y) := by
  rcases unpacked_cases hy with ⟨t, second⟩ | ⟨t, n, k, positive', second, -⟩
  · exact absurd (toRat_of_zero second) nonzero
  · rcases unpacked_cases hx with ⟨s, first⟩ | ⟨s, m, e, positive, first, -⟩
    · rw [toRat_of_zero first, zero_div, div_eq_packed, first, second]
      exact isRounding_zero _
    · have value : toRat x / toRat y = (s / t).apply 1 * (m * 2 ^ e / (n * 2 ^ k)) := by
        rw [toRat_of_unpacked first, toRat_of_unpacked second, apply_eq_mul s, apply_eq_mul t,
          ← apply_div_apply, div_mul_div_comm, mul_assoc, mul_assoc]
      rw [value, div_eq_packed, first, second]
      exact (roundedParts_div positive positive' (s / t)).isRounding (by positivity)

/-- Dividing by one or more keeps a number in range. -/
theorem isFinite_div_of_one_le (hx : x.isFinite = true) (large : 1.0 ≤ y) :
    (x / y).isFinite = true := by
  have number : y ≠ Float.nan := by
    rintro rfl
    exact not_le_nan _ large
  rcases isFinite_or_infinite number with finite | rfl | rfl
  · have large' := toRat_le_of_le rfl finite large
    rw [toRat_one] at large'
    have inRange := abs_toRat_lt_overflowLimit hx
    rw [(isRounding_div hx finite (by linarith only [large'])).isFinite_iff, abs_div,
      abs_of_pos (by linarith only [large'] : 0 < toRat y)]
    exact (div_le_self (abs_nonneg _) large').trans_lt inRange
  · rw [div_eq_packed, unpacked_inf]
    rcases unpacked_cases hx with ⟨s, parts⟩ | ⟨s, m, e, positive, parts, -⟩
    · rw [parts]
      exact isFinite_zero _
    · rw [parts]
      exact isFinite_zero _
  · exact absurd large (by decide +kernel)

/-! ## Whole numbers -/

/-- A whole number of at most 53 bits is converted exactly. -/
theorem toRat_ofNat {n : Nat} (small : n < 2 ^ 53) :
    (Float.ofNat n).isFinite = true ∧ toRat (Float.ofNat n) = n := by
  rcases Nat.eq_zero_or_pos n with rfl | positive
  · exact ⟨by decide +kernel, by decide +kernel⟩
  · have padded : 0 < n * 2 ^ (52 - n.log2) := Nat.mul_pos positive (Nat.two_pow_pos _)
    have parts := value_ofNat positive small
    have short : n.log2 < 53 := (Nat.log2_lt positive.ne').mpr small
    have back : ((n.log2 : Int) - 52) = -((52 - n.log2 : Nat) : Int) := by omega
    refine ⟨isFinite_of_value parts padded, ?_⟩
    have opened : unpacked (Float.ofNat n) = _ := unpack_of_value parts padded
    rw [toRat_of_unpacked opened, back, zpow_neg, zpow_natCast]
    simp [signOf, Sign.apply]

/-- A whole number is converted to the number that it is rounded to. -/
theorem isRounding_ofNat (n : Nat) : IsRounding n (Float.ofNat n) := by
  by_cases small : n < 2 ^ 53
  · obtain ⟨finite, same⟩ := toRat_ofNat small
    rw [← same]
    exact .of_toRat finite
  · -- core multiplies the number, written with 53 more digits, by a power of ten
    have nonzero : n ≠ 0 := by omega
    have opened : Float.ofNat n = packed (UnpackedFloat.roundWithAccuracy .binary64 .positive
        (n * 2 ^ 53 * 1) (-53 + 0) .exact) := by
      change Float.ofScientific n false 0 = _
      rw [Float.ofScientific, dif_neg (by omega)]
      change packed (UnpackedFloat.ofScientific .binary64 n 0) = _
      have bits : Format.binary64.exponentBits = 11 := rfl
      rw [UnpackedFloat.ofScientific, dif_neg nonzero, if_neg (by decide), bits, if_neg (by omega),
        if_pos (by decide), UnpackedFloat.mul, Nat.shiftLeft_eq]
      rfl
    have value : (n : ℚ) = Sign.positive.apply 1 *
        ((n * 2 ^ 53 : Nat) * 2 ^ (-53 : Int) * ((1 : Nat) * 2 ^ (0 : Int))) := by
      have back : (2 : ℚ) ^ 53 * 2 ^ (-53 : Int) = 1 := by decide +kernel
      rw [Sign.apply, zpow_zero, Nat.cast_mul, Nat.cast_pow, Nat.cast_ofNat, mul_assoc (n : ℚ),
        back]
      norm_num
    rw [opened, value]
    exact (roundedParts_mul (.inl (by omega)) .positive).isRounding (by positivity)

variable {n k : Nat}

theorem one_le_ofNat (positive : 0 < n) : 1.0 ≤ Float.ofNat n := by
  refine IsRounding.one.le_of_le (isRounding_ofNat n) ?_
  exact_mod_cast positive

theorem isFinite_ofNat (word : n < 2 ^ 64) : (Float.ofNat n).isFinite = true := by
  rw [(isRounding_ofNat n).isFinite_iff, Nat.abs_cast]
  have small : (n : ℚ) < 2 ^ 64 := by exact_mod_cast word
  refine (small.trans_le ?_).trans_le overflowBound_le
  rw [overflowBound]
  exact pow_le_pow_right₀ one_le_two (by decide)

theorem toRat_ofNat_mono (le : n ≤ k) (word : k < 2 ^ 64) :
    toRat (Float.ofNat n) ≤ toRat (Float.ofNat k) :=
  (isRounding_ofNat n).toRat_le_of_le (isRounding_ofNat k) (isFinite_ofNat (by omega))
    (isFinite_ofNat word) (by exact_mod_cast le)

theorem one_le_toRat_ofNat (positive : 0 < n) (word : n < 2 ^ 64) :
    1 ≤ toRat (Float.ofNat n) := by
  have one := (toRat_ofNat (n := 1) (by decide)).2
  rw [Nat.cast_one] at one
  exact one ▸ toRat_ofNat_mono positive word

end CurveArea.Binary64
