import CurveArea.Proofs.Binary64.Signs
import CurveArea.Scalar

/-!
# Order and special numbers

Infinity and NaN come out of sums, differences and quotients that leave the range of the numbers,
and none of these operations brings back a finite number. NaN is not in order with anything; the
other numbers are in a total order, with infinity at its upper end.
-/

namespace CurveArea.Binary64

open Float.Model (UnpackedFloat Format)
open Float.Model.UnpackedFloat (Sign Accuracy packComponents)

variable {x y : Float}

/-! ## Infinities and NaN -/

theorem isFinite_eq_unpacked (x : Float) : x.isFinite = (unpacked x).isFinite := rfl

@[simp] theorem unpacked_nan : unpacked Float.nan = .notANumber := rfl

@[simp] theorem unpacked_inf : unpacked Float.inf = .infinity .positive := rfl

theorem infinity_eq_inf : infinity = Float.inf := by decide +kernel

theorem eq_nan_iff : x = Float.nan ↔ unpacked x = .notANumber := by
  constructor
  · rintro rfl
    exact unpacked_nan
  · intro h
    exact eq_of_unpacked (h.trans unpacked_nan.symm)

theorem isNaN_eq_false_iff : x.isNaN = false ↔ x ≠ Float.nan := by
  rw [Float.isNaN_eq_decide_eq_nan, decide_eq_false_iff_not]

/-- An exponent that is not all ones marks a finite number. -/
theorem isFinite_unpack_packComponents (sign : Sign) {exponent : BitVec 11} (mantissa : BitVec 52)
    (below : exponent ≠ -1#11) :
    (UnpackedFloat.unpack .binary64 (packComponents .binary64 sign exponent mantissa)).isFinite =
      true := by
  simp only [UnpackedFloat.unpack, UnpackedFloat.unpackExponent_packComponents, if_neg below]
  split
  · split <;> rfl
  · rfl

/-- A finite result is packed as a finite number, or as infinity if it is out of range. -/
theorem unpacked_packed_finite (sign : Sign) (mantissa : Nat) (exponent : Int)
    (positive : 0 < mantissa) :
    unpacked (packed (.finite sign mantissa exponent positive)) = .infinity sign ∨
      (unpacked (packed (.finite sign mantissa exponent positive))).isFinite = true := by
  change UnpackedFloat.unpack .binary64 (UnpackedFloat.pack .binary64 _) = _ ∨
    (UnpackedFloat.unpack .binary64 (UnpackedFloat.pack .binary64 _)).isFinite = true
  simp only [UnpackedFloat.pack]
  split
  · left
    cases sign <;> rfl
  · next inRange =>
    right
    split
    · -- an exponent field of ones would be out of range
      apply isFinite_unpack_packComponents
      intro special
      have same := congrArg BitVec.toNat special
      have ones : (-1#11).toNat = 2047 := rfl
      have bound : 2 ^ Format.binary64.exponentBits = 2048 := rfl
      rw [ones, BitVec.toNat_ofNat] at same
      rw [bound] at inRange
      omega
    · exact isFinite_unpack_packComponents sign _ nofun

theorem packed_ne_nan {u : UnpackedFloat} (h : u ≠ .notANumber) : packed u ≠ Float.nan := by
  rw [Ne, eq_nan_iff]
  cases u with
  | notANumber => exact absurd rfl h
  | infinity s => cases s <;> exact nofun
  | zero s => cases s <;> exact nofun
  | finite s m e positive =>
    intro special
    rcases unpacked_packed_finite s m e positive with infinite | finite
    · rw [special] at infinite
      cases infinite
    · rw [special] at finite
      cases finite

/-- Rounding makes nothing finite that was not. -/
theorem isFinite_of_isFinite_packed {u : UnpackedFloat} (h : (packed u).isFinite = true) :
    u.isFinite = true := by
  cases u with
  | notANumber => exact h
  | infinity s => cases s <;> exact h
  | zero s => rfl
  | finite => rfl

theorem isFinite_of_isFinite_add_unpacked {spec : Format} {u v : UnpackedFloat}
    (h : (UnpackedFloat.add spec u v).isFinite = true) : u.isFinite = true := by
  cases u with
  | notANumber => exact h
  | infinity s => cases v with
    | infinity t => cases s <;> cases t <;> exact h
    | _ => exact h
  | zero s => rfl
  | finite => rfl

/-- No sum brings back what is infinite or NaN. -/
theorem isFinite_of_isFinite_add (h : (x + y).isFinite = true) : x.isFinite = true :=
  isFinite_of_isFinite_add_unpacked (isFinite_of_isFinite_packed h)

/-! ## Special numbers in the arithmetic -/

theorem ne_nan_of_isFinite (h : x.isFinite = true) : x ≠ Float.nan := by
  rintro rfl
  cases h

theorem nan_sub (x : Float) : Float.nan - x = Float.nan := by
  rw [sub_eq_packed, unpacked_nan]
  cases unpacked x <;> rfl

theorem sub_nan (x : Float) : x - Float.nan = Float.nan := by
  rw [sub_eq_packed, unpacked_nan]
  cases unpacked x <;> rfl

theorem nan_div (x : Float) : Float.nan / x = Float.nan := by
  rw [div_eq_packed, unpacked_nan]
  cases unpacked x <;> rfl

theorem abs_eq_nan_iff : x.abs = Float.nan ↔ x = Float.nan := by
  rw [eq_nan_iff, eq_nan_iff, unpacked_abs]
  cases unpacked x <;> simp [UnpackedFloat.abs]

theorem roundWithAccuracy_ne_nan (spec : Format) (sign : Sign) (mantissa : Nat) (exponent : Int)
    (accuracy : Accuracy) :
    UnpackedFloat.roundWithAccuracy spec sign mantissa exponent accuracy ≠ .notANumber := by
  intro special
  simp only [UnpackedFloat.roundWithAccuracy] at special
  split at special <;> cases special

/-- Rounding a sum of mantissas gives a number, never NaN. -/
theorem normalize_ne_nan (spec : Format) (n exponent : Int) :
    UnpackedFloat.normalize spec n exponent .positive ≠ .notANumber := by
  intro special
  rw [UnpackedFloat.normalize] at special
  split at special
  · exact roundWithAccuracy_ne_nan spec _ _ _ _ special
  · cases special
  · exact roundWithAccuracy_ne_nan spec _ _ _ _ special

/-- Finite numbers have a difference, if only an infinite one. -/
theorem sub_ne_nan_of_isFinite (hx : x.isFinite = true) (hy : y.isFinite = true) :
    x - y ≠ Float.nan := by
  rw [isFinite_eq_unpacked] at hx hy
  rw [sub_eq_packed]
  apply packed_ne_nan
  generalize unpacked x = u, unpacked y = v at hx hy
  cases u with
  | notANumber => cases hx
  | infinity s => cases hx
  | zero s => cases v with
    | zero t => cases s <;> cases t <;> exact nofun
    | finite t => exact nofun
    | _ => cases hy
  | finite s m e positive => cases v with
    | zero t => exact nofun
    | finite t n k positive' => exact normalize_ne_nan .binary64 _ _
    | _ => cases hy

@[simp] theorem isFinite_neg (x : Float) : (-x).isFinite = x.isFinite := by
  rw [isFinite_eq_unpacked, isFinite_eq_unpacked, unpacked_neg]
  cases unpacked x <;> rfl

@[simp] theorem isFinite_abs (x : Float) : x.abs.isFinite = x.isFinite := by
  rw [isFinite_eq_unpacked, isFinite_eq_unpacked, unpacked_abs]
  cases unpacked x <;> rfl

theorem isFinite_of_isFinite_sub (h : (x - y).isFinite = true) :
    x.isFinite = true ∧ y.isFinite = true := by
  rw [Binary64.sub_eq_add_neg] at h
  refine ⟨isFinite_of_isFinite_add h, ?_⟩
  rw [Binary64.add_comm] at h
  rw [← isFinite_neg]
  exact isFinite_of_isFinite_add h

/-- What is not finite gives NaN over infinity. -/
theorem div_inf_eq_nan (h : x.isFinite = false) : x / Float.inf = Float.nan := by
  rw [isFinite_eq_unpacked] at h
  rw [div_eq_packed, unpacked_inf]
  generalize unpacked x = u at h ⊢
  cases u with
  | notANumber => rfl
  | infinity s => rfl
  | _ => cases h

theorem isFinite_of_beq_zero (h : (x == 0.0) = true) : x.isFinite = true := by
  obtain ⟨-, -, rfl | ⟨rfl, -⟩ | ⟨rfl, -⟩⟩ := Float.beq_iff_ne_nan_and_eq.mp h <;> rfl

/-- A quotient by a finite number other than zero is a number. -/
theorem div_ne_nan (hx : x ≠ Float.nan) (hy : y.isFinite = true) (nonzero : ¬ (y == 0.0) = true) :
    x / y ≠ Float.nan := by
  have beq_zero : (y == 0.0) = (unpacked y).beq (.zero .positive) := rfl
  rw [Ne, eq_nan_iff] at hx
  rw [isFinite_eq_unpacked] at hy
  rw [beq_zero] at nonzero
  rw [div_eq_packed]
  apply packed_ne_nan
  generalize unpacked x = u, unpacked y = v at hx hy nonzero
  cases v with
  | notANumber => cases hy
  | infinity s => cases hy
  | zero s => exact absurd rfl nonzero
  | finite s m e positive => cases u with
    | notANumber => exact absurd rfl hx
    | finite => exact roundWithAccuracy_ne_nan .binary64 _ _ _ _
    | _ => exact nofun

/-- Mirrored numbers are equal up to the sign, unless they are NaN. -/
theorem Mirrored.beq_neg (h : Mirrored x y) (number : y ≠ Float.nan) : (y == -x) = true := by
  rcases h with same | ⟨s, t, first, second⟩
  · have opposite : y = -x := eq_of_unpacked (same.trans (unpacked_neg x).symm)
    rw [← opposite]
    exact Float.beq_self_iff.mpr number
  · have opened : (y == -x) = (unpacked y).beq (unpacked (-x)) := rfl
    rw [opened, unpacked_neg, first, second]
    rfl

/-! ## The order -/

/-- Exponents and mantissas compare the other way round with the opposite outcome. -/
theorem then_compare_swap (m n : Nat) (e k : Int) :
    (compare k e).then (compare n m) = ((compare e k).then (compare m n)).swap := by
  have exponents : compare k e = (compare e k).swap := Std.OrientedCmp.eq_swap
  have mantissas : compare n m = (compare m n).swap := Std.OrientedCmp.eq_swap
  rw [Ordering.swap_then, exponents, mantissas]

theorem compare_swap (u v : UnpackedFloat) :
    v.compare u = (u.compare v).map Ordering.swap := by
  cases u with
  | notANumber => cases v <;> rfl
  | infinity s => cases v with
    | infinity t => cases s <;> cases t <;> rfl
    | _ => cases s <;> rfl
  | zero s => cases v with
    | infinity t => cases t <;> rfl
    | finite t => cases t <;> rfl
    | _ => rfl
  | finite s m e positive => cases v with
    | notANumber => cases s <;> rfl
    | infinity t => cases s <;> cases t <;> rfl
    | zero t => cases s <;> rfl
    | finite t n k positive' =>
      cases s <;> cases t <;> simp [UnpackedFloat.compare, then_compare_swap m n e k]

theorem lt_iff_compare : x < y ↔ (unpacked x).compare (unpacked y) = some .lt :=
  (decide_eq_true_iff (p := x.toModel < y.toModel)).trans beq_iff_eq

theorem le_iff_compare :
    x ≤ y ↔ (unpacked x).compare (unpacked y) = some .lt ∨
      (unpacked x).compare (unpacked y) = some .eq := by
  have opened : x ≤ y ↔ ((unpacked x).compare (unpacked y)).any (·.isLE) = true :=
    decide_eq_true_iff (p := x.toModel ≤ y.toModel)
  rw [opened]
  cases (unpacked x).compare (unpacked y) with
  | none => simp
  | some o => cases o <;> simp

theorem beq_iff_compare : (x == y) = true ↔ (unpacked x).compare (unpacked y) = some .eq :=
  beq_iff_eq (a := (unpacked x).compare (unpacked y))

/-- The sign of a zero does not show in a comparison for equality. -/
theorem neg_zero_beq (x : Float) : (-0.0 == x) = (0.0 == x) := by
  have same : UnpackedFloat.compare (.zero .negative) (unpacked x) =
      UnpackedFloat.compare (.zero .positive) (unpacked x) := by
    cases unpacked x with
    | infinity s => cases s <;> rfl
    | finite s => cases s <;> rfl
    | _ => rfl
  have negative : unpacked (-0.0) = .zero .negative := rfl
  have positive : unpacked 0.0 = .zero .positive := rfl
  rw [Bool.eq_iff_iff, beq_iff_compare, beq_iff_compare, negative, positive, same]

/-- A comparison has no outcome only if NaN takes part in it. -/
theorem compare_eq_none_iff (u v : UnpackedFloat) :
    u.compare v = none ↔ u = .notANumber ∨ v = .notANumber := by
  cases u with
  | notANumber => cases v <;> simp [UnpackedFloat.compare]
  | infinity s => cases v <;> cases s <;> simp [UnpackedFloat.compare]
  | zero s => cases v with
    | infinity t => cases t <;> simp [UnpackedFloat.compare]
    | finite t => cases t <;> simp [UnpackedFloat.compare]
    | _ => simp [UnpackedFloat.compare]
  | finite s m e positive => cases v with
    | infinity t => cases s <;> cases t <;> simp [UnpackedFloat.compare]
    | finite t => cases s <;> cases t <;> simp [UnpackedFloat.compare]
    | _ => cases s <;> simp [UnpackedFloat.compare]

theorem compare_nan (x : Float) : (unpacked x).compare (unpacked Float.nan) = none :=
  (compare_eq_none_iff _ _).mpr (.inr unpacked_nan)

/-- No number is below NaN. -/
theorem not_lt_nan (x : Float) : ¬ x < Float.nan := by
  rw [lt_iff_compare, compare_nan]
  exact nofun

theorem not_nan_lt (x : Float) : ¬ Float.nan < x := by
  rw [lt_iff_compare, compare_swap, compare_nan]
  simp

theorem not_nan_le (x : Float) : ¬ Float.nan ≤ x := by
  rw [le_iff_compare, compare_swap, compare_nan]
  simp

theorem not_le_nan (x : Float) : ¬ x ≤ Float.nan := by
  rw [le_iff_compare, compare_nan]
  simp

/-- Apart from NaN the order is total. -/
theorem not_lt_iff_le (hx : x ≠ Float.nan) (hy : y ≠ Float.nan) : ¬ x < y ↔ y ≤ x := by
  rw [lt_iff_compare, le_iff_compare, compare_swap (unpacked x)]
  rw [Ne, eq_nan_iff] at hx hy
  have comparable : (unpacked x).compare (unpacked y) ≠ none := by
    rw [Ne, compare_eq_none_iff]
    exact not_or.mpr ⟨hx, hy⟩
  cases found : (unpacked x).compare (unpacked y) with
  | none => exact absurd found comparable
  | some order => cases order <;> simp

/-- Numbers in order both ways are equal, if only up to the sign of zero. -/
theorem beq_of_le_of_le (h : x ≤ y) (h' : y ≤ x) : (x == y) = true := by
  rcases le_iff_compare.mp h with below | same
  · rw [le_iff_compare, compare_swap, below] at h'
    rcases h' with reversed | reversed <;> cases reversed
  · exact beq_iff_compare.mpr same

/-! ## The larger of two numbers -/

theorem larger_eq_or (x y : Float) : Scalar.larger x y = x ∨ Scalar.larger x y = y := by
  rw [Scalar.larger]
  split
  · exact .inr rfl
  · split
    · exact .inl rfl
    · exact .inr rfl

theorem isFinite_larger (hx : x.isFinite = true) (hy : y.isFinite = true) :
    (Scalar.larger x y).isFinite = true := by
  rcases larger_eq_or x y with same | same
  · rwa [same]
  · rwa [same]

protected theorem le_of_lt (h : x < y) : x ≤ y := le_iff_compare.mpr (.inl (lt_iff_compare.mp h))

theorem le_self (h : x ≠ Float.nan) : x ≤ x := by
  by_cases below : x < x
  · exact Binary64.le_of_lt below
  · exact (not_lt_iff_le h h).mp below

theorem le_larger (hx : x ≠ Float.nan) (hy : y ≠ Float.nan) :
    x ≤ Scalar.larger x y ∧ y ≤ Scalar.larger x y := by
  rw [Scalar.larger]
  by_cases below : x < y
  · rw [if_pos below]
    exact ⟨Binary64.le_of_lt below, le_self hy⟩
  · rw [if_neg below, if_pos (le_self hx)]
    exact ⟨le_self hx, (not_lt_iff_le hx hy).mp below⟩

theorem smaller_eq_or (x y : Float) : Scalar.smaller x y = x ∨ Scalar.smaller x y = y := by
  rw [Scalar.smaller]
  split
  · exact .inr rfl
  · split
    · exact .inl rfl
    · exact .inr rfl

theorem smaller_le (hx : x ≠ Float.nan) (hy : y ≠ Float.nan) :
    Scalar.smaller x y ≤ x ∧ Scalar.smaller x y ≤ y := by
  rw [Scalar.smaller]
  by_cases below : y < x
  · rw [if_pos below]
    exact ⟨Binary64.le_of_lt below, le_self hy⟩
  · rw [if_neg below, if_pos (le_self hx)]
    exact ⟨le_self hx, (not_lt_iff_le hy hx).mp below⟩

theorem le_inf (h : x ≠ Float.nan) : x ≤ Float.inf := by
  rw [Ne, eq_nan_iff] at h
  rw [le_iff_compare, unpacked_inf]
  generalize unpacked x = u at h
  cases u with
  | notANumber => exact absurd rfl h
  | infinity s => cases s <;> decide
  | _ => exact .inl rfl

theorem neg_inf_le (h : x ≠ Float.nan) : -Float.inf ≤ x := by
  rw [Ne, eq_nan_iff] at h
  rw [le_iff_compare, unpacked_neg, unpacked_inf]
  generalize unpacked x = u at h
  cases u with
  | notANumber => exact absurd rfl h
  | infinity s => cases s <;> decide
  | _ => exact .inl rfl

theorem eq_inf_of_inf_le (h : Float.inf ≤ x) : x = Float.inf := by
  rw [le_iff_compare, unpacked_inf] at h
  apply eq_of_unpacked
  rw [unpacked_inf]
  generalize unpacked x = u at h
  cases u with
  | infinity s => cases s with
    | negative => rcases h with h | h <;> cases h
    | positive => rfl
  | _ => rcases h with h | h <;> cases h

theorem eq_neg_inf_of_le (h : x ≤ -Float.inf) : x = -Float.inf := by
  rw [le_iff_compare, unpacked_neg, unpacked_inf] at h
  apply eq_of_unpacked
  rw [unpacked_neg, unpacked_inf]
  generalize unpacked x = u at h
  cases u with
  | infinity s => cases s with
    | negative => rfl
    | positive => rcases h with h | h <;> cases h
  | _ => rcases h with h | h <;> cases h

/-- What is not NaN is finite or one of the two infinities. -/
theorem isFinite_or_infinite (h : x ≠ Float.nan) :
    x.isFinite = true ∨ x = Float.inf ∨ x = -Float.inf := by
  rw [Ne, eq_nan_iff] at h
  rw [isFinite_eq_unpacked]
  cases parts : unpacked x with
  | notANumber => exact absurd parts h
  | infinity s =>
    right
    cases s with
    | negative => exact .inr (eq_of_unpacked (parts.trans (by rw [unpacked_neg]; rfl)))
    | positive => exact .inl (eq_of_unpacked (parts.trans unpacked_inf.symm))
  | _ => exact .inl rfl

end CurveArea.Binary64
