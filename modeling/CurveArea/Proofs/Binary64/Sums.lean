import CurveArea.Proofs.Binary64.Rounding

/-!
# Sums of two numbers

A sum of two finite numbers is their exact sum, rounded, unless that is out of range. It is zero
only where the numbers cancel exactly, which gives the positive zero, or where both of them are
zero; the negative zero is the sum of two negative zeros and of nothing else.
-/

namespace CurveArea.Binary64

open Float.Model (UnpackedFloat)
open Float.Model.UnpackedFloat (Sign)

variable {x y : Float}

theorem isRounding_round {m : Nat} (positive : 0 < m) (e : Int) (sign : Sign) :
    IsRounding (sign.apply m * 2 ^ e) (packed (UnpackedFloat.round .binary64 sign m e)) := by
  have rounds := (roundedParts_round positive e sign).isRounding (by positivity)
  rwa [← mul_assoc, ← apply_eq_mul] at rounds

theorem isRounding_normalize (n e : Int) :
    IsRounding (n * 2 ^ e) (packed (UnpackedFloat.normalize .binary64 n e .positive)) := by
  rcases Int.lt_trichotomy n 0 with below | rfl | above
  · have order : compare n 0 = .lt := Int.compare_eq_lt.mpr below
    have value : Sign.negative.apply (-n).toNat = n := by
      rw [Sign.apply]
      omega
    simp only [UnpackedFloat.normalize, order]
    have rounds := isRounding_round (m := (-n).toNat) (by omega) e .negative
    rwa [value] at rounds
  · have cancelled : packed (UnpackedFloat.normalize .binary64 0 e .positive) = 0.0 := rfl
    rw [cancelled, Int.cast_zero, zero_mul]
    exact .zero
  · have order : compare n 0 = .gt := Int.compare_eq_gt.mpr above
    have value : Sign.positive.apply n.toNat = n := Int.toNat_of_nonneg above.le
    simp only [UnpackedFloat.normalize, order]
    have rounds := isRounding_round (m := n.toNat) (by omega) e .positive
    rwa [value] at rounds

theorem apply_shiftLeft_mul_zpow (s : Sign) (m : Nat) {e l : Int} (below : l ≤ e) :
    ((s.apply (m <<< (e - l).toNat : Nat) : Int) : ℚ) * 2 ^ l = s.apply m * 2 ^ e := by
  have shifted := shiftLeft_mul_zpow m below
  cases s with
  | negative => simp only [Sign.apply, Int.cast_neg, Int.cast_natCast, neg_mul, shifted]
  | positive => exact shifted

/-- Adding a zero leaves a number that is not zero as it is. -/
theorem add_of_zero {s t : Sign} {m : Nat} {e : Int} {positive : 0 < m}
    (parts : unpacked x = .finite s m e positive) (zero : unpacked y = .zero t) : x + y = x := by
  rw [add_eq_packed, parts, zero]
  change packed (.finite s m e positive) = x
  rw [← parts, packed_unpacked]

/-- The sum of two finite numbers is their exact sum, rounded. -/
theorem isRounding_add (hx : x.isFinite = true) (hy : y.isFinite = true) :
    IsRounding (toRat x + toRat y) (x + y) := by
  rcases unpacked_cases hx with ⟨s, first⟩ | ⟨s, m, e, positive, first, -⟩
  · rw [toRat_of_zero first, zero_add]
    rcases unpacked_cases hy with ⟨t, second⟩ | ⟨t, n, k, positive', second, -⟩
    · have sum : x + y = 0.0 ∨ x + y = -0.0 := by
        rw [add_eq_packed, first, second]
        obtain ⟨sign, zero⟩ := exists_add_zero .binary64 s t
        rw [zero]
        cases sign with
        | negative => exact .inr rfl
        | positive => exact .inl rfl
      rw [toRat_of_zero second]
      rcases sum with zero | zero
      · rw [zero]
        exact .zero
      · rw [zero]
        exact .of_toRat (x := -0.0) rfl
    · rw [Binary64.add_comm, add_of_zero second first]
      exact .of_toRat hy
  · rcases unpacked_cases hy with ⟨t, second⟩ | ⟨t, n, k, positive', second, -⟩
    · rw [add_of_zero first second, toRat_of_zero second, add_zero]
      exact .of_toRat hx
    · rw [toRat_of_unpacked first, toRat_of_unpacked second,
        ← apply_shiftLeft_mul_zpow s m (min_le_left e k),
        ← apply_shiftLeft_mul_zpow t n (min_le_right e k), ← add_mul, ← Int.cast_add,
        add_eq_packed, first, second]
      exact isRounding_normalize _ _

theorem isRounding_sub (hx : x.isFinite = true) (hy : y.isFinite = true) :
    IsRounding (toRat x - toRat y) (x - y) := by
  rw [Binary64.sub_eq_add_neg, sub_eq_add_neg, ← toRat_neg]
  exact isRounding_add hx ((isFinite_neg y).trans hy)

/-- Adding to a finite number leaves what is infinite. -/
theorem add_of_infinity {a : Float} (ha : a.isFinite = true) {s : Sign}
    (infinite : unpacked x = .infinity s) : a + x = x := by
  rw [isFinite_eq_unpacked] at ha
  rw [add_eq_packed, infinite]
  have absorbed : UnpackedFloat.add .binary64 (unpacked a) (.infinity s) = unpacked x := by
    rw [infinite]
    generalize unpacked a = u at ha
    cases u with
    | notANumber => cases ha
    | infinity t => cases ha
    | _ => rfl
  rw [absorbed, packed_unpacked]

theorem add_inf {a : Float} (ha : a.isFinite = true) : a + Float.inf = Float.inf :=
  add_of_infinity ha unpacked_inf

theorem add_neg_inf {a : Float} (ha : a.isFinite = true) : a + -Float.inf = -Float.inf :=
  add_of_infinity (s := .negative) ha rfl

theorem add_ne_nan {a : Float} (ha : a.isFinite = true) (hx : x ≠ Float.nan) :
    a + x ≠ Float.nan := by
  rcases isFinite_or_infinite hx with finite | rfl | rfl
  · exact (isRounding_add ha finite).ne_nan
  · rw [add_inf ha]
    exact nofun
  · rw [add_neg_inf ha]
    exact nofun

/-- Adding to a finite number keeps the order. -/
theorem add_le_add_left {a : Float} (ha : a.isFinite = true) (h : x ≤ y) : a + x ≤ a + y := by
  have hx : x ≠ Float.nan := by
    rintro rfl
    exact not_nan_le y h
  have hy : y ≠ Float.nan := by
    rintro rfl
    exact not_le_nan x h
  rcases isFinite_or_infinite hy with high | rfl | rfl
  · rcases isFinite_or_infinite hx with low | rfl | rfl
    · exact (isRounding_add ha low).le_of_le (isRounding_add ha high)
        (by linarith only [toRat_le_of_le low high h])
    · rw [eq_inf_of_inf_le h]
      exact le_self (add_ne_nan ha hx)
    · rw [add_neg_inf ha]
      exact neg_inf_le (add_ne_nan ha hy)
  · rw [add_inf ha]
    exact le_inf (add_ne_nan ha hx)
  · rw [eq_neg_inf_of_le h]
    exact le_self (add_ne_nan ha hy)

/-- What is added to a number does not lower it, and what is taken away does not raise it. -/
theorem sub_le_self_le_add {d : Float} (hx : x.isFinite = true) (nonneg : 0.0 ≤ d) :
    x - d ≤ x ∧ x ≤ x + d := by
  have hd : d ≠ Float.nan := by
    rintro rfl
    exact not_le_nan _ nonneg
  rcases isFinite_or_infinite hd with finite | rfl | rfl
  · have nonneg' := toRat_nonneg_of_le finite nonneg
    exact ⟨(isRounding_sub hx finite).le_of_le (.of_toRat hx) (by linarith only [nonneg']),
      (IsRounding.of_toRat hx).le_of_le (isRounding_add hx finite) (by linarith only [nonneg'])⟩
  · rw [Binary64.sub_eq_add_neg, add_neg_inf hx, add_inf hx]
    exact ⟨neg_inf_le (ne_nan_of_isFinite hx), le_inf (ne_nan_of_isFinite hx)⟩
  · exact absurd nonneg (by decide)

/-! ## No finer place -/

/-- The number that a value is rounded to, which is infinite only if the value is out of range. -/
structure RoundsInto (v : ℚ) (x : Float) : Prop where
  rounded : x.isFinite = true → Rounded v (toRat x)
  isFinite : |v| < overflowBound → x.isFinite = true

theorem IsRounding.roundsInto {v : ℚ} (h : IsRounding v x)
    (whole : ∃ n : Int, v = n * 2 ^ minExponent) : RoundsInto v x := by
  refine ⟨fun finite => ?_, fun small => h.isFinite_iff.mpr (small.trans_le overflowBound_le)⟩
  obtain ⟨place, multiple, rounded⟩ := h.exists_halfEven finite
  exact rounded.rounded whole

/-- Every number is a multiple of the least place. -/
theorem exists_multiple_toRat (finite : x.isFinite = true) :
    ∃ n : Int, toRat x = n * 2 ^ minExponent := by
  rcases unpacked_cases finite with ⟨s, zero⟩ | ⟨s, m, e, positive, parts, canonical⟩
  · refine ⟨0, ?_⟩
    rw [toRat_of_zero zero, Int.cast_zero, zero_mul]
  · rw [toRat_of_unpacked parts]
    exact ⟨_, mul_zpow_of_le _ canonical.minExponent_le⟩

/-- A sum of two finite numbers needs no finer place than they have. -/
theorem roundsInto_add (hx : x.isFinite = true) (hy : y.isFinite = true) :
    RoundsInto (toRat x + toRat y) (x + y) := by
  refine (isRounding_add hx hy).roundsInto ?_
  obtain ⟨n, first⟩ := exists_multiple_toRat hx
  obtain ⟨k, second⟩ := exists_multiple_toRat hy
  refine ⟨n + k, ?_⟩
  rw [first, second, Int.cast_add, add_mul]

/-! ## The negative zero -/

theorem eq_neg_zero_iff : x = -0.0 ↔ unpacked x = .zero .negative := by
  have zero : unpacked (-0.0) = .zero .negative := rfl
  constructor
  · rintro rfl
    exact zero
  · intro h
    exact eq_of_unpacked (h.trans zero.symm)

/-- A sum of mantissas that cancels is a positive zero, and any other sum is not zero at all. -/
theorem unpacked_packed_normalize_ne (n : Int) {e : Int} (least : minExponent ≤ e) :
    unpacked (packed (UnpackedFloat.normalize .binary64 n e .positive)) ≠ .zero .negative := by
  intro zero
  have finite : (packed (UnpackedFloat.normalize .binary64 n e .positive)).isFinite = true := by
    rw [isFinite_eq_unpacked, zero]
    rfl
  have rounded := ((isRounding_normalize n e).roundsInto
    ⟨_, mul_zpow_of_le n least⟩).rounded finite
  -- only zero is off by all of itself
  have error := rounded.abs_sub_le
  rw [toRat_of_zero zero, zero_sub, abs_neg, abs_mul] at error
  have scale : (0 : ℚ) < |2 ^ e| := abs_pos.mpr (zpow_pos two_pos e).ne'
  have vanishes : n = 0 := by
    by_contra some_sum
    have positive : (0 : ℚ) < |(n : ℚ)| := abs_pos.mpr (Int.cast_ne_zero.mpr some_sum)
    have product := mul_pos positive scale
    linarith only [error, product]
  have cancelled : UnpackedFloat.normalize .binary64 0 e .positive = .zero .positive := rfl
  rw [vanishes, cancelled] at zero
  cases zero

/-- The negative zero is the sum of negative zeros only. -/
theorem eq_neg_zero_of_add (h : x + y = -0.0) : x = -0.0 ∧ y = -0.0 := by
  have finite : (x + y).isFinite = true := by
    rw [h]
    rfl
  have finite' : (y + x).isFinite = true := by
    rw [Binary64.add_comm]
    exact finite
  rw [eq_neg_zero_iff] at h
  rw [eq_neg_zero_iff, eq_neg_zero_iff]
  rcases unpacked_cases (isFinite_of_isFinite_add finite) with
    ⟨s, first⟩ | ⟨s, m, e, positive, first, low⟩
  · rcases unpacked_cases (isFinite_of_isFinite_add finite') with
      ⟨t, second⟩ | ⟨t, n, k, positive', second, high⟩
    · rw [add_eq_packed, first, second] at h
      rw [first, second]
      cases s with
      | negative =>
        cases t with
        | negative => exact ⟨rfl, rfl⟩
        | positive => cases h
      | positive => cases t <;> cases h
    · rw [Binary64.add_comm, add_of_zero second first, second] at h
      cases h
  · rcases unpacked_cases (isFinite_of_isFinite_add finite') with
      ⟨t, second⟩ | ⟨t, n, k, positive', second, high⟩
    · rw [add_of_zero first second, first] at h
      cases h
    · have least : minExponent ≤ min e k := le_min low.minExponent_le high.minExponent_le
      rw [add_eq_packed, first, second] at h
      exact absurd h (unpacked_packed_normalize_ne _ least)

/-- Adding a negative zero leaves every number as it is. -/
theorem add_neg_zero (x : Float) : x + -0.0 = x := by
  have unchanged : UnpackedFloat.add .binary64 (unpacked x) (.zero .negative) = unpacked x := by
    cases unpacked x with
    | zero s => cases s <;> rfl
    | _ => rfl
  have zero : unpacked (-0.0) = .zero .negative := rfl
  rw [add_eq_packed, zero, unchanged, packed_unpacked]

/-- Adding to a positive zero leaves every number but the negative zero as it is. -/
theorem zero_add_of_ne {x : Float} (h : x ≠ -0.0) : 0.0 + x = x := by
  have unchanged : UnpackedFloat.add .binary64 (.zero .positive) (unpacked x) = unpacked x := by
    cases parts : unpacked x with
    | zero s => cases s with
      | negative => exact absurd (eq_neg_zero_iff.mpr parts) h
      | positive => rfl
    | _ => rfl
  have zero : unpacked 0.0 = .zero .positive := rfl
  rw [add_eq_packed, zero, unchanged, packed_unpacked]

/-- Adding to a positive zero changes no magnitude. -/
theorem abs_zero_add (x : Float) : (0.0 + x).abs = x.abs := by
  by_cases zero : x = -0.0
  · rw [zero]
    rfl
  · rw [zero_add_of_ne zero]

theorem sub_zero (x : Float) : x - 0.0 = x := by
  rw [Binary64.sub_eq_add_neg]
  exact add_neg_zero x

/-- The sign of a zero that something is taken from does not show in the distance. -/
theorem abs_neg_zero_sub (x : Float) : (-0.0 - x).abs = (0.0 - x).abs := by
  rw [Binary64.sub_eq_add_neg, Binary64.sub_eq_add_neg, abs_zero_add, Binary64.add_comm,
    add_neg_zero]

/-- Only a negative zero has a negative zero as its difference from something. -/
theorem sub_ne_neg_zero (h : x ≠ -0.0) (y : Float) : x - y ≠ -0.0 := by
  rw [Binary64.sub_eq_add_neg]
  exact fun vanishes => h (eq_neg_zero_of_add vanishes).1

/-- A finite number less itself is the positive zero. -/
theorem sub_self_of_isFinite (finite : x.isFinite = true) : x - x = 0.0 := by
  rw [sub_eq_packed]
  rcases unpacked_cases finite with ⟨s, parts⟩ | ⟨s, m, e, positive, parts, -⟩
  · rw [parts]
    cases s <;> rfl
  · rw [parts]
    simp only [UnpackedFloat.sub, Int.sub_self]
    rfl

end CurveArea.Binary64
