import CurveArea.Proofs.Binary64.Parts

/-!
# Rounding to the nearest number

A fraction in the rounding interval of a number is rounded to that number. The interval reaches half
of a last place to either side, but only a quarter below a power of two, where the numbers below
are twice as dense; its ends belong to it if the mantissa is even.
-/

namespace CurveArea.Binary64

/-- How far the rounding interval reaches below a number, in units of its last place. -/
def gapBelow (mantissa : Nat) (exponent : Int) : ℚ :=
  if mantissa = leadingBit ∧ exponent ≠ minExponent then 1 / 4 else 1 / 2

/-- The fractions in the rounding interval of `mantissa * 2 ^ exponent`. -/
structure RoundsTo (mantissa : Nat) (exponent : Int) (x : ℚ) : Prop where
  low : (mantissa - gapBelow mantissa exponent) * 2 ^ exponent ≤ x
  high : x ≤ (mantissa + 1 / 2) * 2 ^ exponent
  inside : mantissa % 2 = 1 →
    (mantissa - gapBelow mantissa exponent) * 2 ^ exponent < x ∧
      x < (mantissa + 1 / 2) * 2 ^ exponent

/-- Rounding gives the number whose double is at most the denominator away from the doubled
numerator, of two such numbers the even one. -/
theorem roundHalfEven_of_bounds {num den k : Nat} (positive : 0 < den)
    (low : 2 * (k * den) ≤ 2 * num + den) (high : 2 * num ≤ 2 * (k * den) + den)
    (inside : k % 2 = 1 → 2 * (k * den) < 2 * num + den ∧ 2 * num < 2 * (k * den) + den) :
    roundHalfEven num den = k := by
  have split := Nat.div_add_mod num den
  have remainder := Nat.mod_lt num positive
  have notAbove : num / den ≤ k := by
    apply Nat.le_of_lt_succ
    rw [Nat.div_lt_iff_lt_mul positive, Nat.succ_mul]
    omega
  have notBelow : k ≤ num / den + 1 := by
    by_contra far
    have : (num / den + 2) * den ≤ k * den := Nat.mul_le_mul_right den (by omega)
    rw [Nat.add_mul, Nat.mul_comm (num / den)] at this
    omega
  rw [roundHalfEven]
  rcases Nat.lt_or_ge (num / den) k with less | atLeast
  · have next : k = num / den + 1 := by omega
    have product : k * den = den * (num / den) + den := by
      rw [next, Nat.add_mul, Nat.one_mul, Nat.mul_comm]
    split
    · omega
    · split
      · exact next.symm
      · omega
  · have same : k = num / den := by omega
    have product : k * den = den * (num / den) := by
      rw [same, Nat.mul_comm]
    split
    · exact same.symm
    · split
      · omega
      · omega

/-- Rounding gives the number at most a half away, of two such numbers the even one. -/
theorem roundHalfEven_eq {num den k : Nat} (positive : 0 < den)
    (low : (k - 1 / 2 : ℚ) ≤ num / den) (high : (num / den : ℚ) ≤ k + 1 / 2)
    (inside : k % 2 = 1 → (k - 1 / 2 : ℚ) < num / den ∧ (num / den : ℚ) < k + 1 / 2) :
    roundHalfEven num den = k := by
  have posDen : (0 : ℚ) < den := by exact_mod_cast positive
  rw [le_div_iff₀ posDen] at low
  rw [div_le_iff₀ posDen] at high
  rw [lt_div_iff₀ posDen, div_lt_iff₀ posDen] at inside
  apply roundHalfEven_of_bounds positive
  · have : (2 * (k * den) : ℚ) ≤ 2 * num + den := by linarith
    exact_mod_cast this
  · have : (2 * num : ℚ) ≤ 2 * (k * den) + den := by linarith
    exact_mod_cast this
  · intro odd
    obtain ⟨above, below⟩ := inside odd
    have left : (2 * (k * den) : ℚ) < 2 * num + den := by linarith
    have right : (2 * num : ℚ) < 2 * (k * den) + den := by linarith
    exact ⟨by exact_mod_cast left, by exact_mod_cast right⟩

/-- A power as a fraction of natural powers. -/
theorem zpow_eq_div (base : ℚ) (e : Int) :
    base ^ e = base ^ e.toNat / base ^ (-e).toNat := by
  rcases le_total 0 e with nonneg | nonpos
  · obtain ⟨n, rfl⟩ := Int.eq_ofNat_of_zero_le nonneg
    simp
  · obtain ⟨n, same⟩ := Int.eq_ofNat_of_zero_le (Int.neg_nonneg_of_nonpos nonpos)
    obtain rfl : e = -n := by omega
    simp

theorem two_zpow_add (e : Int) (n : Nat) : (2 : ℚ) ^ (e + n) = 2 ^ n * 2 ^ e := by
  rw [zpow_add₀ two_ne_zero, mul_comm]
  norm_cast

theorem two_pow_eq_mul {e : Int} {m n : Nat} (sum : (m : Int) = e + n) :
    (2 : ℚ) ^ m = 2 ^ e * 2 ^ n := by
  rw [← zpow_natCast, sum, two_zpow_add, mul_comm]

/-- A shifted fraction is the fraction without a power of two. -/
theorem shifted_div (num den : Nat) (e : Int) :
    ((num <<< (-e).toNat : Nat) : ℚ) / (den <<< e.toNat : Nat) = num / den / 2 ^ e := by
  rw [zpow_eq_div, Nat.shiftLeft_eq, Nat.shiftLeft_eq]
  push_cast
  field_simp

theorem shifted_le_iff {num den : Nat} (hden : 0 < den) (e : Int) :
    den <<< e.toNat ≤ num <<< (-e).toNat ↔ (2 : ℚ) ^ e ≤ num / den := by
  have positive : (0 : ℚ) < (den <<< e.toNat : Nat) := by
    rw [Nat.shiftLeft_eq]
    exact_mod_cast Nat.mul_pos hden (Nat.two_pow_pos _)
  rw [← one_le_div₀ (zpow_pos two_pos e), ← shifted_div, one_le_div₀ positive, Nat.cast_le]

/-- The last place stands 52 places behind the leading bit, but not behind the smallest exponent. -/
theorem exists_lastPlace {num den : Nat} (hnum : 0 < num) (hden : 0 < den) :
    ∃ leading : Int, (2 : ℚ) ^ leading ≤ num / den ∧ (num / den : ℚ) < 2 ^ (leading + 1) ∧
      lastPlace num den = max (leading - 52) minExponent := by
  have posDen : (0 : ℚ) < den := by exact_mod_cast hden
  have numLow : (2 : ℚ) ^ num.log2 ≤ num := by exact_mod_cast Nat.log2_self_le hnum.ne'
  have numHigh : (num : ℚ) < 2 ^ (num.log2 + 1) := by exact_mod_cast Nat.lt_log2_self
  have denLow : (2 : ℚ) ^ den.log2 ≤ den := by exact_mod_cast Nat.log2_self_le hden.ne'
  have denHigh : (den : ℚ) < 2 ^ (den.log2 + 1) := by exact_mod_cast Nat.lt_log2_self
  by_cases reaches : (2 : ℚ) ^ ((num.log2 : Int) - den.log2) ≤ num / den
  · refine ⟨(num.log2 : Int) - den.log2, reaches, ?_, ?_⟩
    · rw [div_lt_iff₀ posDen]
      calc (num : ℚ) < 2 ^ (num.log2 + 1) := numHigh
        _ = 2 ^ ((num.log2 : Int) - den.log2 + 1) * 2 ^ den.log2 := two_pow_eq_mul (by omega)
        _ ≤ 2 ^ ((num.log2 : Int) - den.log2 + 1) * den := by gcongr
    · simp only [lastPlace, if_pos ((shifted_le_iff hden _).mpr reaches)]
  · refine ⟨(num.log2 : Int) - den.log2 - 1, ?_, ?_, ?_⟩
    · rw [le_div_iff₀ posDen]
      calc (2 : ℚ) ^ ((num.log2 : Int) - den.log2 - 1) * den
          ≤ 2 ^ ((num.log2 : Int) - den.log2 - 1) * 2 ^ (den.log2 + 1) := by gcongr
        _ = 2 ^ num.log2 := (two_pow_eq_mul (by omega)).symm
        _ ≤ num := numLow
    · rw [Int.sub_add_cancel]
      exact not_le.mp reaches
    · simp only [lastPlace, if_neg (mt (shifted_le_iff hden _).mp reaches)]

/-- Rounding at the last place, where the fraction is known to half a unit. -/
theorem nearest_eq_ofBits {num den k : Nat} {q : Int} (hnum : 0 < num) (hden : 0 < den)
    (place : lastPlace num den = q) (low : (k - 1 / 2 : ℚ) * 2 ^ q ≤ num / den)
    (high : (num / den : ℚ) ≤ (k + 1 / 2) * 2 ^ q)
    (inside : k % 2 = 1 →
      (k - 1 / 2 : ℚ) * 2 ^ q < num / den ∧ (num / den : ℚ) < (k + 1 / 2) * 2 ^ q) :
    nearest num den = ofBits (magnitudeBits k q) := by
  have unit : (0 : ℚ) < 2 ^ q := zpow_pos two_pos q
  have positive : 0 < den <<< q.toNat := by
    rw [Nat.shiftLeft_eq]
    exact Nat.mul_pos hden (Nat.two_pow_pos _)
  have rounded : roundHalfEven (num <<< (-q).toNat) (den <<< q.toNat) = k := by
    apply roundHalfEven_eq positive
    · rw [shifted_div, le_div_iff₀ unit]
      exact low
    · rw [shifted_div, div_le_iff₀ unit]
      exact high
    · intro odd
      rw [shifted_div, lt_div_iff₀ unit, div_lt_iff₀ unit]
      exact inside odd
  simp only [nearest, place, rounded, if_neg hnum.ne', magnitudeBits]

section RoundsTo

variable {mantissa : Nat} {exponent : Int} {x : ℚ}

/-- A rounding interval reaches down by half of a unit at most. -/
theorem half_le_low (mantissa : Nat) (exponent : Int) :
    (mantissa - 1 / 2 : ℚ) * 2 ^ exponent ≤
      (mantissa - gapBelow mantissa exponent) * 2 ^ exponent := by
  have gap : gapBelow mantissa exponent ≤ 1 / 2 := by
    rw [gapBelow]
    split <;> norm_num
  gcongr

theorem RoundsTo.half_low (h : RoundsTo mantissa exponent x) :
    (mantissa - 1 / 2 : ℚ) * 2 ^ exponent ≤ x :=
  (half_le_low mantissa exponent).trans h.low

theorem RoundsTo.half_inside (h : RoundsTo mantissa exponent x) (odd : mantissa % 2 = 1) :
    (mantissa - 1 / 2 : ℚ) * 2 ^ exponent < x ∧ x < (mantissa + 1 / 2) * 2 ^ exponent := by
  obtain ⟨above, below⟩ := h.inside odd
  exact ⟨(half_le_low mantissa exponent).trans_lt above, below⟩

/-- No rounding interval reaches further down than half of the smallest positive number. -/
theorem RoundsTo.half_least (h : RoundsTo mantissa exponent x)
    (canonical : Canonical mantissa exponent) (positive : 0 < mantissa) : ((2 : ℚ) ^ 1075)⁻¹ ≤ x := by
  have one_le : (1 : ℚ) ≤ mantissa := by exact_mod_cast positive
  have half : (1 / 2 : ℚ) ≤ mantissa - 1 / 2 := by linarith
  have unit : (2 : ℚ) ^ (-1074 : Int) ≤ 2 ^ exponent :=
    zpow_le_zpow_right₀ one_le_two canonical.minExponent_le
  have double : (2 : ℚ) ^ (-1074 : Int) = 2 ^ 1 * (2 ^ 1075)⁻¹ := by
    rw [← zpow_natCast 2 1075, ← zpow_neg]
    exact two_zpow_add (-1075) 1
  calc ((2 : ℚ) ^ 1075)⁻¹ = 1 / 2 * 2 ^ (-1074 : Int) := by
        rw [double, pow_one, one_div, inv_mul_cancel_left₀ two_ne_zero]
    _ ≤ (mantissa - 1 / 2) * 2 ^ exponent := by gcongr
    _ ≤ x := h.half_low

/-- The number above the interval still has the exponent, so the leading bit is not too high. -/
theorem RoundsTo.lt_two_zpow (h : RoundsTo mantissa exponent x)
    (canonical : Canonical mantissa exponent) :
    x < 2 ^ (exponent + 53) := by
  have bounded : (mantissa : ℚ) + 1 ≤ 2 ^ 53 := by
    exact_mod_cast canonical.mantissa_lt
  calc x ≤ (mantissa + 1 / 2) * 2 ^ exponent := h.high
    _ < 2 ^ 53 * 2 ^ exponent := by
      gcongr
      linarith
    _ = 2 ^ (exponent + 53) := (two_zpow_add exponent 53).symm

end RoundsTo

/-- Just below a power of two the mantissa is rounded up, and the carry raises the exponent. -/
private theorem nearest_below_power {num den : Nat} {exponent : Int} (hnum : 0 < num)
    (hden : 0 < den) (higher : minExponent < exponent)
    (low : (2 ^ 52 - 1 / 4 : ℚ) * 2 ^ exponent ≤ num / den)
    (high : (num / den : ℚ) < 2 ^ (exponent + 52)) :
    nearest num den = magnitude leadingBit exponent := by
  have unit : (0 : ℚ) < 2 ^ (exponent - 1) := zpow_pos two_pos _
  have double : (2 : ℚ) ^ exponent = 2 * 2 ^ (exponent - 1) := by
    rw [zpow_sub_one₀ two_ne_zero]
    ring
  have high' : (num / den : ℚ) < 2 ^ 53 * 2 ^ (exponent - 1) := by
    rw [← two_zpow_add]
    convert high using 2
    push_cast
    ring
  rw [double] at low
  obtain ⟨leading, above, below, place⟩ := exists_lastPlace hnum hden
  have notHigher : leading < exponent + 52 :=
    (zpow_lt_zpow_iff_right₀ one_lt_two).mp (lt_of_le_of_lt above high)
  have notLower : exponent + 51 < leading + 1 := by
    apply (zpow_lt_zpow_iff_right₀ (one_lt_two (α := ℚ))).mp
    calc (2 : ℚ) ^ (exponent + 51) = 2 ^ 51 * (2 * 2 ^ (exponent - 1)) := by
          rw [← double]
          exact two_zpow_add exponent 51
      _ < (2 ^ 52 - 1 / 4) * (2 * 2 ^ (exponent - 1)) := by
          gcongr
          norm_num
      _ ≤ num / den := low
      _ < 2 ^ (leading + 1) := below
  have carried : magnitudeBits (2 * leadingBit) (exponent - 1) =
      magnitudeBits leadingBit exponent := by
    simp only [magnitudeBits, leadingBit, minExponent] at *
    omega
  have two_leadingBit : ((2 * leadingBit : Nat) : ℚ) = 2 ^ 53 := by norm_num [leadingBit]
  rw [magnitude, ← carried]
  apply nearest_eq_ofBits hnum hden
  · rw [place]
    omega
  · rw [two_leadingBit]
    linarith
  · rw [two_leadingBit]
    linarith
  · intro odd
    exact absurd odd (by decide)

/-- A fraction in the rounding interval of a number is rounded to that number. -/
theorem nearest_eq_magnitude {mantissa num den : Nat} {exponent : Int}
    (canonical : Canonical mantissa exponent) (positive : 0 < mantissa) (hden : 0 < den)
    (h : RoundsTo mantissa exponent (num / den)) :
    nearest num den = magnitude mantissa exponent := by
  have hnum : 0 < num := by
    have least : (0 : ℚ) < num / den :=
      lt_of_lt_of_le (inv_pos.mpr (by positivity)) (h.half_least canonical positive)
    by_contra none
    obtain rfl : num = 0 := by omega
    simp at least
  obtain ⟨leading, above, below, place⟩ := exists_lastPlace hnum hden
  have notHigher : leading < exponent + 53 :=
    (zpow_lt_zpow_iff_right₀ one_lt_two).mp (lt_of_le_of_lt above (h.lt_two_zpow canonical))
  have minExponent_le := canonical.minExponent_le
  by_cases same : max (leading - 52) minExponent = exponent
  · exact nearest_eq_ofBits hnum hden (place.trans same) h.half_low h.high h.half_inside
  · have normal : leadingBit ≤ mantissa := by
      rcases canonical.leading with normal | least
      · exact normal
      · exact absurd (by omega) same
    have higher : minExponent < exponent := by omega
    have lower : leading + 1 ≤ exponent + 52 := by omega
    have high : (num / den : ℚ) < 2 ^ (exponent + 52) :=
      lt_of_lt_of_le below (zpow_le_zpow_right₀ one_le_two lower)
    -- a mantissa above a power of two would keep its leading bit
    have isPower : mantissa = leadingBit := by
      by_contra other
      have next : (2 : ℚ) ^ 52 + 1 ≤ mantissa := by
        have : leadingBit + 1 ≤ mantissa := by omega
        exact_mod_cast this
      have reaches : (2 : ℚ) ^ (exponent + 52) < num / den := by
        calc (2 : ℚ) ^ (exponent + 52) = 2 ^ 52 * 2 ^ exponent := two_zpow_add exponent 52
          _ < (mantissa - 1 / 2) * 2 ^ exponent := by
              gcongr
              linarith
          _ ≤ num / den := h.half_low
      exact lt_asymm reaches high
    have low := h.low
    have gap : gapBelow mantissa exponent = 1 / 4 := if_pos ⟨isPower, by omega⟩
    have power : (mantissa : ℚ) = 2 ^ 52 := by
      rw [isPower]
      norm_num [leadingBit]
    rw [gap, power] at low
    rw [isPower]
    exact nearest_below_power hnum hden higher low high

end CurveArea.Binary64
