import CurveArea.Decimal.Shortest
import CurveArea.Proofs.Binary64.Nearest

/-!
# Shortest decimals read back

Whatever the search finds, and the exact value that it falls back to, lies in the rounding interval
of the number, so reading it gives the number again.
-/

namespace CurveArea.Decimal

open Binary64 (RoundsTo gapBelow Canonical)

namespace RoundingInterval

variable {mantissa : Nat} {exponent : Int}

theorem den_pos (mantissa : Nat) (exponent : Int) : 0 < (of mantissa exponent).den := by
  simp only [of, Nat.shiftLeft_eq]
  exact Nat.mul_pos Nat.one_pos (Nat.two_pow_pos _)

/-- The ends are computed in quarters of the last place. -/
private theorem shifted_quarter (n : Nat) (exponent : Int) :
    ((n <<< (exponent - 2).toNat : Nat) : ℚ) / (1 <<< (2 - exponent).toNat : Nat) =
      n / 4 * 2 ^ exponent := by
  have shifted := Binary64.shifted_div n 1 (2 - exponent)
  rw [Int.neg_sub] at shifted
  rw [shifted, zpow_sub₀ two_ne_zero]
  field_simp
  norm_num

theorem low_div_den (positive : 0 < mantissa) :
    ((of mantissa exponent).low : ℚ) / (of mantissa exponent).den =
      (mantissa - gapBelow mantissa exponent) * 2 ^ exponent := by
  simp only [of, shifted_quarter, gapBelow]
  congr 1
  split
  · rw [Nat.cast_sub (by omega)]
    push_cast
    ring
  · rw [Nat.cast_sub (by omega)]
    push_cast
    ring

theorem high_div_den :
    ((of mantissa exponent).high : ℚ) / (of mantissa exponent).den =
      (mantissa + 1 / 2) * 2 ^ exponent := by
  simp only [of, shifted_quarter]
  congr 1
  push_cast
  ring

theorem closed_of_odd (h : mantissa % 2 = 1) :
    (of mantissa exponent).closed = false := by
  simp [of, h]

/-- What the interval holds lies between its ends, and not at them if it is open. -/
theorem between_of_holds {i : RoundingInterval} {num : Nat} (h : i.holds num = true) :
    i.low ≤ num ∧ num ≤ i.high ∧ (i.closed = false → i.low < num ∧ num < i.high) := by
  unfold holds at h
  split at h
  · next closed =>
    obtain ⟨low, high⟩ := of_decide_eq_true h
    refine ⟨low, high, fun isOpen => ?_⟩
    rw [closed] at isOpen
    cases isOpen
  · obtain ⟨low, high⟩ := of_decide_eq_true h
    exact ⟨Nat.le_of_lt low, Nat.le_of_lt high, fun _ => ⟨low, high⟩⟩

/-- A point of the grid, as a fraction over the denominator of the scaled interval. -/
private theorem grid_eq_div {den : Nat} (positive : 0 < den) (n : Nat) (place : Int) :
    (n * 10 ^ place : ℚ) =
      (n * (den * 10 ^ place.toNat) : Nat) / (den * 10 ^ (-place).toNat : Nat) := by
  have nonzero : (den : ℚ) ≠ 0 := by exact_mod_cast positive.ne'
  rw [Binary64.zpow_eq_div]
  push_cast
  field_simp

/-- An end of the interval over the denominator of the scaled interval. -/
private theorem end_eq_div (i : RoundingInterval) (a : Nat) (place : Int) :
    (a / i.den : ℚ) = (a * 10 ^ (-place).toNat : Nat) / (i.den * 10 ^ (-place).toNat : Nat) := by
  push_cast
  rw [mul_div_mul_right _ _ (by positivity)]

/-- A point of a grid that the scaled interval holds is rounded to the number. -/
theorem roundsTo_of_holds {place : Int} {n : Nat} (positive : 0 < mantissa)
    (h : ((of mantissa exponent).scaleUp (Nat.pow 10 (-place).toNat)).holds
      (n * ((of mantissa exponent).den * Nat.pow 10 place.toNat)) = true) :
    RoundsTo mantissa exponent (n * 10 ^ place) := by
  have hden := den_pos mantissa exponent
  have posDen : (0 : ℚ) < ((of mantissa exponent).den * 10 ^ (-place).toNat : Nat) := by
    exact_mod_cast Nat.mul_pos hden (by positivity)
  have lowEnd := end_eq_div (of mantissa exponent) (of mantissa exponent).low place
  have highEnd := end_eq_div (of mantissa exponent) (of mantissa exponent).high place
  rw [low_div_den positive] at lowEnd
  rw [high_div_den] at highEnd
  obtain ⟨low, high, inside⟩ := between_of_holds h
  simp only [scaleUp, Nat.pow_eq] at low high inside
  constructor
  · rw [lowEnd, grid_eq_div hden, div_le_div_iff_of_pos_right posDen]
    exact_mod_cast low
  · rw [highEnd, grid_eq_div hden, div_le_div_iff_of_pos_right posDen]
    exact_mod_cast high
  · intro odd
    obtain ⟨above, below⟩ := inside (closed_of_odd odd)
    rw [lowEnd, highEnd, grid_eq_div hden, div_lt_div_iff_of_pos_right posDen,
      div_lt_div_iff_of_pos_right posDen]
    exact ⟨by exact_mod_cast above, by exact_mod_cast below⟩

theorem holds_of_onGrid? {i : RoundingInterval} {place : Int} {n : Nat}
    (h : i.onGrid? place = some n) :
    (i.scaleUp (Nat.pow 10 (-place).toNat)).holds (n * (i.den * Nat.pow 10 place.toNat)) = true := by
  unfold onGrid? at h
  dsimp only at h
  split at h
  · next lower upper =>
    obtain rfl := Option.some.inj h
    split
    · exact lower
    · exact upper
  · next lower upper =>
    obtain rfl := Option.some.inj h
    exact lower
  · next lower upper =>
    obtain rfl := Option.some.inj h
    exact upper
  · cases h

theorem onGrid?_of_search {i : RoundingInterval} {top place : Int} {fuel n : Nat}
    (h : i.search top fuel = some (n, place)) : i.onGrid? place = some n := by
  induction fuel generalizing top with
  | zero => cases h
  | succ fuel ih =>
    rw [search] at h
    split at h
    · next found =>
      cases h
      exact found
    · exact ih h

end RoundingInterval

/-- The number itself lies in its interval. -/
theorem roundsTo_self {mantissa : Nat} {exponent : Int} :
    RoundsTo mantissa exponent (mantissa * 2 ^ exponent) := by
  have unit : (0 : ℚ) < 2 ^ exponent := zpow_pos two_pos exponent
  have gap : 0 < gapBelow mantissa exponent := by
    rw [gapBelow]
    split <;> norm_num
  have below : (mantissa - gapBelow mantissa exponent) * 2 ^ exponent < mantissa * 2 ^ exponent := by
    gcongr
    linarith
  have above : (mantissa * 2 ^ exponent : ℚ) < (mantissa + 1 / 2) * 2 ^ exponent := by
    gcongr
    linarith
  exact ⟨below.le, above.le, fun _ => ⟨below, above⟩⟩

/-- A number is a whole number of units at the place where the search ends. -/
theorem exact_eq (mantissa : Nat) (exponent : Int) :
    ((mantissa <<< exponent.toNat * Nat.pow 5 (-exponent).toNat : Nat) * 10 ^ min exponent 0 : ℚ) =
      mantissa * 2 ^ exponent := by
  rw [Nat.shiftLeft_eq, Nat.pow_eq]
  push_cast
  rcases le_total 0 exponent with nonneg | nonpos
  · obtain ⟨n, rfl⟩ := Int.eq_ofNat_of_zero_le nonneg
    simp
  · obtain ⟨n, same⟩ := Int.eq_ofNat_of_zero_le (Int.neg_nonneg_of_nonpos nonpos)
    obtain rfl : exponent = -n := by omega
    have : (10 : ℚ) ^ n = 2 ^ n * 5 ^ n := by
      rw [← mul_pow]
      norm_num
    simp [this]
    field_simp

/-- The shortest decimal of a number is rounded to the number. -/
theorem shortest_roundsTo {mantissa : Nat} (exponent : Int) (positive : 0 < mantissa) :
    RoundsTo mantissa exponent
      ((shortest mantissa exponent).1 * 10 ^ (shortest mantissa exponent).2) := by
  rw [shortest]
  cases found : (RoundingInterval.of mantissa exponent).search _ _ with
  | some decimal =>
    have held := RoundingInterval.holds_of_onGrid? (RoundingInterval.onGrid?_of_search found)
    exact RoundingInterval.roundsTo_of_holds positive held
  | none =>
    rw [Option.getD_none, exact_eq]
    exact roundsTo_self

/-- A decimal fraction that does not vanish is far above the cut that is made without writing its
power of ten out: what is cut off lies below `8 / 10 ^ 333`. -/
private theorem not_cut {digits places : Nat} (large : 10 ^ places ≤ digits * 2 ^ 1075) :
    ¬ (-(places : Int) + (digits.log2 / 3 + 2 : Nat) < -330) := by
  intro cut
  have deep : digits.log2 / 3 + 333 ≤ places := by omega
  have width : digits < 2 ^ (digits.log2 + 1) := Nat.lt_log2_self
  have short : digits.log2 + 1 ≤ 3 * (digits.log2 / 3) + 3 := by omega
  have : digits * 2 ^ 1075 < 10 ^ places := by
    calc digits * 2 ^ 1075 < 2 ^ (digits.log2 + 1) * 2 ^ 1075 := by gcongr
      _ ≤ 2 ^ (3 * (digits.log2 / 3) + 3) * 2 ^ 1075 :=
        Nat.mul_le_mul_right _ (Nat.pow_le_pow_right (by decide) short)
      _ = 8 ^ (digits.log2 / 3) * 2 ^ 1078 := by
        rw [show (8 : Nat) = 2 ^ 3 from rfl, ← pow_mul, ← pow_add, ← pow_add]
      _ ≤ 10 ^ (digits.log2 / 3) * 10 ^ 333 :=
        Nat.mul_le_mul (Nat.pow_le_pow_left (by decide) _) (by decide +kernel)
      _ = 10 ^ (digits.log2 / 3 + 333) := by rw [pow_add]
      _ ≤ 10 ^ places := Nat.pow_le_pow_right (by decide) deep
  omega

/-- A decimal fraction in the rounding interval of a number is read as that number. -/
theorem nearest_eq_magnitude_of_roundsTo {mantissa digits places : Nat} {exponent : Int}
    (canonical : Canonical mantissa exponent) (positive : 0 < mantissa)
    (h : RoundsTo mantissa exponent (digits / 10 ^ places)) :
    nearest digits (-(places : Int)) = Binary64.magnitude mantissa exponent := by
  have large : 10 ^ places ≤ digits * 2 ^ 1075 := by
    have least := h.half_least canonical positive
    rw [le_div_iff₀ (by positivity)] at least
    have : (10 : ℚ) ^ places ≤ digits * 2 ^ 1075 := by
      calc (10 : ℚ) ^ places = (2 ^ 1075)⁻¹ * 10 ^ places * 2 ^ 1075 := by field_simp
        _ ≤ digits * 2 ^ 1075 := by gcongr
    exact_mod_cast this
  have nonzero : digits ≠ 0 := by
    rintro rfl
    have := Nat.pow_pos (n := places) (show 0 < 10 by decide)
    omega
  have hden : 0 < 10 ^ places := by positivity
  rw [nearest, if_neg nonzero, if_neg (by omega), if_neg (not_cut large)]
  have zeros : (-(places : Int)).toNat = 0 := by omega
  rw [zeros, Int.neg_neg, Int.toNat_natCast, Nat.pow_eq, Nat.pow_eq, pow_zero, Nat.mul_one]
  apply Binary64.nearest_eq_magnitude canonical positive hden
  push_cast
  exact h

end CurveArea.Decimal
