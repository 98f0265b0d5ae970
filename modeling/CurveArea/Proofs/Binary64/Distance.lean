import CurveArea.Proofs.Binary64.Products

/-!
# The distance of two numbers

The rounded distance of two numbers is their exact distance, rounded, and for numbers that are not
negative it is at most the larger one. Different numbers keep a distance: one is at least a part in
`2 ^ 54` of a larger one away from it, however small both are. Rounding takes no more than half of
the distance away, so the part that it is of the larger number does not vanish either.
-/

namespace CurveArea.Binary64

open Float.Model.UnpackedFloat (Sign)

variable {v : ℚ} {x y : Float}

/-! ## Magnitudes of rounded values -/

/-- The magnitude of what a value is rounded to is the magnitude of the value, rounded. -/
theorem IsRounding.abs (h : IsRounding v x) : IsRounding |v| x.abs := by
  cases h with
  | @finite place multiple finite rounded =>
    have finite' : x.abs.isFinite = true := (isFinite_abs x).trans finite
    rcases le_total 0 v with nonneg | nonpos
    · have nonneg' := IsRounding.toRat_nonneg (.finite finite rounded) finite nonneg
      have same : HalfEven |v| (toRat x.abs) place multiple := by
        rwa [toRat_abs, abs_of_nonneg nonneg, abs_of_nonneg nonneg']
      exact .finite finite' same
    · have nonpos' := IsRounding.toRat_le_of_le (.finite finite rounded) .zero finite rfl nonpos
      rw [toRat_zero] at nonpos'
      have opposite : HalfEven |v| (toRat x.abs) place (-multiple) := by
        rw [toRat_abs, abs_of_nonpos nonpos, abs_of_nonpos nonpos']
        exact rounded.neg
      exact .finite finite' opposite
  | above infinite beyond =>
    rw [infinite]
    exact .above rfl (beyond.trans (le_abs_self v))
  | below infinite beyond =>
    rw [infinite]
    exact .above rfl ((le_neg_of_le_neg beyond).trans (neg_le_abs v))

/-- A value that is not below the least place is not rounded to zero. -/
theorem IsRounding.toRat_pos (h : IsRounding v x) (finite : x.isFinite = true)
    (large : 2 ^ minExponent ≤ v) : 0 < toRat x := by
  have least : (0 : ℚ) < 2 ^ minExponent := zpow_pos two_pos _
  have error := h.abs_sub_le finite
  rw [abs_of_nonneg (least.le.trans large)] at error
  linarith only [(abs_le.mp error).1, least, large]

/-! ## Neighbours -/

/-- A positive number is a multiple of a place that every smaller number is at least one of away. -/
theorem exists_place_le_sub (hx : x.isFinite = true) (positive : 0 < toRat x) :
    ∃ t : Int, toRat x ≤ 2 ^ 54 * 2 ^ t ∧
      ∀ y : Float, y.isFinite = true → toRat y < toRat x → 2 ^ t ≤ toRat x - toRat y := by
  -- half a place below the number, the number itself is still a nearest one
  have apart : ∀ t r : Int, toRat x = r * 2 ^ t →
      (2 ^ 52 * 2 ^ t ≤ toRat x - 2 ^ t / 2 ∨ t = minExponent) →
      ∀ y : Float, y.isFinite = true → toRat y < toRat x → 2 ^ t ≤ toRat x - toRat y := by
    intro t r multiple digits y hy below
    have place : (0 : ℚ) < 2 ^ t := zpow_pos two_pos t
    have half : |(r : ℚ) * 2 ^ t - (toRat x - 2 ^ t / 2)| = 2 ^ t / 2 := by
      rw [← multiple, sub_sub_cancel, abs_of_pos (half_pos place)]
    have nearest := abs_sub_le_of_placed (by rw [half]; linarith only)
      (digits.imp_left fun long => long.trans (le_abs_self _)) hy
    rw [half] at nearest
    rcases le_abs.mp nearest with above | beneath
    · linarith only [above, below]
    · linarith only [beneath]
  rcases unpacked_cases hx with ⟨s, zero⟩ | ⟨s, m, e, some_digits, parts, canonical⟩
  · rw [toRat_of_zero zero] at positive
    exact absurd positive (lt_irrefl 0)
  · have scale : (0 : ℚ) < 2 ^ e := zpow_pos two_pos e
    have value : toRat x = m * 2 ^ e := by
      rw [toRat_of_unpacked parts] at positive ⊢
      cases s with
      | negative =>
        rw [Sign.apply, Int.cast_neg, neg_mul, neg_pos] at positive
        exact absurd positive (not_lt.mpr (by positivity))
      | positive => rfl
    have short : (m : ℚ) ≤ 2 ^ 53 := by exact_mod_cast canonical.mantissa_lt.le
    rcases canonical.leading with leading | rfl
    · -- below a power of two the numbers are twice as dense
      have long : (2 : ℚ) ^ 52 ≤ m := by exact_mod_cast leading
      have step : (2 : ℚ) ^ e = 2 * 2 ^ (e - 1) := by
        rw [mul_comm, ← zpow_add_one₀ two_ne_zero, sub_add_cancel]
      have scale' : (0 : ℚ) < 2 ^ (e - 1) := zpow_pos two_pos _
      rw [step] at value
      refine ⟨e - 1, ?_, apart (e - 1) (2 * m) ?_ (.inl ?_)⟩
      · rw [value]
        nlinarith only [short, scale']
      · rw [value]
        push_cast
        ring
      · rw [value]
        nlinarith only [long, scale']
    · refine ⟨minExponent, ?_, apart minExponent m ?_ (.inr rfl)⟩
      · rw [value]
        nlinarith only [short, scale]
      · exact_mod_cast value

/-- A smaller number is at least one part in `2 ^ 54` of a positive number away from it. -/
theorem part_le_sub_of_lt (hx : x.isFinite = true) (hy : y.isFinite = true)
    (positive : 0 < toRat x) (below : toRat y < toRat x) :
    toRat x / 2 ^ 54 ≤ toRat x - toRat y := by
  obtain ⟨t, short, apart⟩ := exists_place_le_sub hx positive
  have distance := apart y hy below
  rw [div_le_iff₀ (by positivity)]
  linarith only [short, distance]

/-! ## The distance and the larger number -/

section Distance

variable (hx : x.isFinite = true) (hy : y.isFinite = true)

include hx hy

theorem toRat_larger : toRat (Scalar.larger x y) = max (toRat x) (toRat y) := by
  obtain ⟨left, right⟩ := le_larger (ne_nan_of_isFinite hx) (ne_nan_of_isFinite hy)
  rcases larger_eq_or x y with same | same
  · rw [same] at right ⊢
    exact (max_eq_left (toRat_le_of_le hy hx right)).symm
  · rw [same] at left ⊢
    exact (max_eq_right (toRat_le_of_le hx hy left)).symm

theorem isRounding_distance : IsRounding |toRat x - toRat y| (x - y).abs :=
  (isRounding_sub hx hy).abs

/-- Rounding takes at most half of a distance away. -/
theorem half_distance_le (finite : (x - y).abs.isFinite = true) :
    |toRat x - toRat y| / 2 ≤ toRat (x - y).abs := by
  have rounds := roundsInto_add hx ((isFinite_neg y).trans hy)
  rw [toRat_neg, ← sub_eq_add_neg, ← Binary64.sub_eq_add_neg] at rounds
  have error := (rounds.rounded ((isFinite_abs _).symm.trans finite)).abs_sub_le
  have through := abs_sub_abs_le_abs_sub (toRat x - toRat y) (toRat (x - y))
  rw [abs_sub_comm (toRat x - toRat y)] at through
  have nonneg := abs_nonneg (toRat x - toRat y)
  rw [toRat_abs]
  linarith only [error, through, nonneg]

variable (nonneg : 0 ≤ toRat x) (nonneg' : 0 ≤ toRat y)

include nonneg nonneg'

theorem abs_sub_le_larger : |toRat x - toRat y| ≤ toRat (Scalar.larger x y) := by
  rw [toRat_larger hx hy]
  exact abs_sub_le_of_nonneg_of_le nonneg (le_max_left _ _) nonneg' (le_max_right _ _)

theorem isFinite_distance : (x - y).abs.isFinite = true := by
  rw [(isRounding_distance hx hy).isFinite_iff, abs_abs]
  refine (abs_sub_le_larger hx hy nonneg nonneg').trans_lt ?_
  exact (le_abs_self _).trans_lt (abs_toRat_lt_overflowLimit (isFinite_larger hx hy))

theorem distance_le_larger : (x - y).abs ≤ Scalar.larger x y :=
  (isRounding_distance hx hy).le_of_le (.of_toRat (isFinite_larger hx hy))
    (abs_sub_le_larger hx hy nonneg nonneg')

/-- The distance of different numbers, rounded, is at least one part in `2 ^ 55` of the larger. -/
theorem part_le_distance (apart : toRat x ≠ toRat y) :
    toRat (Scalar.larger x y) / 2 ^ 55 ≤ toRat (x - y).abs := by
  have exact_part : toRat (Scalar.larger x y) / 2 ^ 54 ≤ |toRat x - toRat y| := by
    rw [toRat_larger hx hy]
    rcases lt_or_gt_of_ne apart with below | above
    · rw [max_eq_right below.le, abs_sub_comm]
      exact (part_le_sub_of_lt hy hx (nonneg.trans_lt below) below).trans (le_abs_self _)
    · rw [max_eq_left above.le]
      exact (part_le_sub_of_lt hx hy (nonneg'.trans_lt above) above).trans (le_abs_self _)
  have rounded := half_distance_le hx hy (isFinite_distance hx hy nonneg nonneg')
  linarith only [exact_part, rounded]

end Distance

end CurveArea.Binary64
