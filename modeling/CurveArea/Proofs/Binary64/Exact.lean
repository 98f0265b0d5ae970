import CurveArea.Proofs.Binary64.Nearest
import CurveArea.Proofs.Binary64.Unsigned

/-!
# Exact values

A finite number is a rational one, its mantissa times a power of two, and the arithmetic can be
compared with that of the rationals. Signs are signs there, magnitudes are magnitudes, and finite
numbers are in the order of their values.
-/

namespace CurveArea.Binary64

open Float.Model (UnpackedFloat)
open Float.Model.UnpackedFloat (Sign)

/-- The rational number that parts make up. Infinity and NaN make up none and count as zero. -/
def exactParts : UnpackedFloat → ℚ
  | .finite sign mantissa exponent _ => sign.apply mantissa * 2 ^ exponent
  | _ => 0

/-- The exact value of a finite number. -/
def toRat (x : Float) : ℚ := exactParts (unpacked x)

variable {x y : Float}

theorem toRat_of_unpacked {s : Sign} {m : Nat} {e : Int} {positive : 0 < m}
    (h : unpacked x = .finite s m e positive) : toRat x = s.apply m * 2 ^ e := by
  rw [toRat, h]
  rfl

theorem toRat_of_zero {s : Sign} (h : unpacked x = .zero s) : toRat x = 0 := by
  rw [toRat, h]
  rfl

@[simp] theorem toRat_zero : toRat 0.0 = 0 := rfl

theorem toRat_one : toRat 1.0 = 1 := by
  have parts : unpacked 1.0 = .finite .positive (2 ^ 52) (-52) (Nat.two_pow_pos 52) := by rfl
  rw [toRat_of_unpacked parts]
  decide +kernel

@[simp] theorem toRat_neg (x : Float) : toRat (-x) = -toRat x := by
  rw [toRat, toRat, unpacked_neg]
  cases unpacked x with
  | finite s m e positive =>
    simp only [UnpackedFloat.neg, exactParts, apply_neg, Int.cast_neg, neg_mul]
  | _ => exact neg_zero.symm

theorem abs_apply (s : Sign) (m : Nat) : |((s.apply m : Int) : ℚ)| = m := by
  cases s with
  | negative => simp [Sign.apply]
  | positive => simp [Sign.apply]

@[simp] theorem toRat_abs (x : Float) : toRat x.abs = |toRat x| := by
  rw [toRat, toRat, unpacked_abs]
  cases unpacked x with
  | finite s m e positive =>
    have scale : (0 : ℚ) < 2 ^ e := zpow_pos two_pos e
    rw [exactParts, abs_mul, abs_apply, abs_of_pos scale]
    rfl
  | _ => exact abs_zero.symm

/-- Digits shifted to a lower exponent stand for the same number. -/
theorem shiftLeft_mul_zpow (m : Nat) {e l : Int} (below : l ≤ e) :
    ((m <<< (e - l).toNat : Nat) : ℚ) * 2 ^ l = m * 2 ^ e := by
  have width : e = l + (e - l).toNat := by omega
  rw [Nat.shiftLeft_eq, Nat.cast_mul, Nat.cast_pow, Nat.cast_ofNat, mul_assoc, ← two_zpow_add,
    ← width]

/-- Canonical parts compare like the numbers that they make up. -/
theorem mul_zpow_lt_of_compare {m n : Nat} {e k : Int} (low : Canonical m e)
    (high : Canonical n k) (h : (compare e k).then (compare m n) = .lt) :
    (m : ℚ) * 2 ^ e < n * 2 ^ k := by
  rw [← shiftLeft_mul_zpow m (min_le_left e k), ← shiftLeft_mul_zpow n (min_le_right e k)]
  have shifted := shifted_lt_of_compare low high h
  exact mul_lt_mul_of_pos_right (Nat.cast_lt.mpr shifted) (zpow_pos two_pos _)

/-- Finite numbers are in the order of their values. -/
theorem toRat_lt_of_lt (hx : x.isFinite = true) (hy : y.isFinite = true) (h : x < y) :
    toRat x < toRat y := by
  have scale : ∀ e : Int, (0 : ℚ) < 2 ^ e := fun e => zpow_pos two_pos e
  have above : ∀ {m : Nat}, 0 < m → ∀ e : Int, (0 : ℚ) < m * 2 ^ e := by
    intro m positive e
    exact mul_pos (Nat.cast_pos.mpr positive) (scale e)
  rw [lt_iff_compare] at h
  rcases unpacked_cases hx with ⟨s, first⟩ | ⟨s, m, e, positive, first, low⟩
  · rcases unpacked_cases hy with ⟨t, second⟩ | ⟨t, n, k, positive', second, high⟩
    · rw [first, second] at h
      cases h
    · rw [first, second] at h
      rw [toRat_of_zero first, toRat_of_unpacked second]
      cases t with
      | negative => cases h
      | positive => exact above positive' k
  · rcases unpacked_cases hy with ⟨t, second⟩ | ⟨t, n, k, positive', second, high⟩
    · rw [first, second] at h
      rw [toRat_of_unpacked first, toRat_of_zero second]
      cases s with
      | negative =>
        rw [Sign.apply, Int.cast_neg, neg_mul, neg_lt_zero]
        exact above positive e
      | positive => cases h
    · rw [first, second] at h
      rw [toRat_of_unpacked first, toRat_of_unpacked second]
      cases s with
      | negative =>
        rw [Sign.apply, Int.cast_neg, neg_mul]
        cases t with
        | negative =>
          -- of two negative numbers the smaller one has the larger magnitude
          have larger : (compare k e).then (compare n m) = .lt := by
            rw [then_compare_swap]
            simpa [UnpackedFloat.compare] using h
          rw [Sign.apply, Int.cast_neg, neg_mul, neg_lt_neg_iff]
          exact mul_zpow_lt_of_compare high low larger
        | positive => exact lt_trans (neg_lt_zero.mpr (above positive e)) (above positive' k)
      | positive =>
        cases t with
        | negative => cases h
        | positive =>
          have smaller : (compare e k).then (compare m n) = .lt := by
            simpa [UnpackedFloat.compare] using h
          exact mul_zpow_lt_of_compare low high smaller

theorem le_of_toRat_le (hx : x.isFinite = true) (hy : y.isFinite = true)
    (h : toRat x ≤ toRat y) : x ≤ y := by
  rw [← not_lt_iff_le (ne_nan_of_isFinite hy) (ne_nan_of_isFinite hx)]
  intro above
  exact absurd (toRat_lt_of_lt hy hx above) (not_lt.mpr h)

theorem toRat_eq_of_beq (same : (x == y) = true) : toRat x = toRat y := by
  obtain ⟨-, -, rfl | ⟨rfl, rfl⟩ | ⟨rfl, rfl⟩⟩ := Float.beq_iff_ne_nan_and_eq.mp same
  all_goals rfl

theorem toRat_le_of_le (hx : x.isFinite = true) (hy : y.isFinite = true) (h : x ≤ y) :
    toRat x ≤ toRat y := by
  rcases le_iff_compare.mp h with below | same
  · exact (toRat_lt_of_lt hx hy (lt_iff_compare.mpr below)).le
  · exact (toRat_eq_of_beq (beq_iff_compare.mpr same)).le

theorem toRat_nonneg_of_le (finite : x.isFinite = true) (nonneg : 0.0 ≤ x) : 0 ≤ toRat x := by
  have order := toRat_le_of_le rfl finite nonneg
  rwa [toRat_zero] at order

/-- Finite numbers with the same value are equal, if only up to the sign of zero. -/
theorem beq_of_toRat_eq (hx : x.isFinite = true) (hy : y.isFinite = true)
    (h : toRat x = toRat y) : (x == y) = true := by
  exact beq_of_le_of_le (le_of_toRat_le hx hy h.le) (le_of_toRat_le hy hx h.ge)

theorem lt_of_toRat_lt (hx : x.isFinite = true) (hy : y.isFinite = true) (h : toRat x < toRat y) :
    x < y := by
  by_contra notBelow
  rw [not_lt_iff_le (ne_nan_of_isFinite hx) (ne_nan_of_isFinite hy)] at notBelow
  exact absurd (toRat_le_of_le hy hx notBelow) (not_le.mpr h)

protected theorem le_trans {z : Float} (h : x ≤ y) (h' : y ≤ z) : x ≤ z := by
  have hx : x ≠ Float.nan := by
    rintro rfl
    exact not_nan_le y h
  have hy : y ≠ Float.nan := by
    rintro rfl
    exact not_le_nan x h
  have hz : z ≠ Float.nan := by
    rintro rfl
    exact not_le_nan y h'
  rcases isFinite_or_infinite hy with middle | rfl | rfl
  · rcases isFinite_or_infinite hx with low | rfl | rfl
    · rcases isFinite_or_infinite hz with high | rfl | rfl
      · exact le_of_toRat_le low high
          ((toRat_le_of_le low middle h).trans (toRat_le_of_le middle high h'))
      · exact le_inf hx
      · rwa [eq_neg_inf_of_le h'] at h
    · rwa [eq_inf_of_inf_le h] at h'
    · exact neg_inf_le hz
  · rw [eq_inf_of_inf_le h']
    exact le_inf hx
  · rw [eq_neg_inf_of_le h]
    exact neg_inf_le hz

end CurveArea.Binary64
