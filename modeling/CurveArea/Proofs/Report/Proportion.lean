import CurveArea.Proofs.Binary64.Distance
import CurveArea.Proofs.Report.Silence

/-!
# The relative error as a proportion

The two areas of a report have no sign, so their distance is at most the larger one, and the
relative error is a proportion: a number from zero to one. It is zero only for equal areas. A
quotient of numbers can be too small for the range, but not this one, because different numbers
keep a distance that is not small against them.
-/

namespace CurveArea.Report

open Binary64 (toRat minExponent IsRounding)

/-- What holds of every report with finite areas. -/
structure Proportionate (r : Report Float) : Prop where
  analytic_nonneg : 0.0 ≤ r.analytic
  riemann_nonneg : 0.0 ≤ r.riemann
  isFinite_absError : r.absError.isFinite = true
  absError_le : r.absError ≤ Scalar.larger r.analytic r.riemann
  /-- The error is divided by the larger area, unless there is nothing to divide by. -/
  divides : r.analytic = 0.0 ∧ r.riemann = 0.0 ∧ r.relativeError = 0.0 ∨
    0.0 < Scalar.larger r.analytic r.riemann ∧
      r.relativeError = r.absError / Scalar.larger r.analytic r.riemann
  relativeError_nonneg : 0.0 ≤ r.relativeError
  relativeError_le_one : r.relativeError ≤ 1.0
  relativeError_beq_zero_iff : (r.relativeError == 0.0) = true ↔ (r.analytic == r.riemann) = true

variable {r : Report Float}

section Areas

variable (h : r.Computed) (finite : r.analytic.isFinite = true) (finite' : r.riemann.isFinite = true)

include h finite finite'

theorem Computed.areas_nonneg : 0.0 ≤ r.analytic ∧ 0.0 ≤ r.riemann :=
  ⟨h.analytic.nonneg (Binary64.ne_nan_of_isFinite finite),
    h.riemann.nonneg (Binary64.ne_nan_of_isFinite finite')⟩

theorem Computed.toRat_areas_nonneg : 0 ≤ toRat r.analytic ∧ 0 ≤ toRat r.riemann :=
  ⟨Binary64.toRat_nonneg_of_le finite (h.areas_nonneg finite finite').1,
    Binary64.toRat_nonneg_of_le finite' (h.areas_nonneg finite finite').2⟩

theorem Computed.isFinite_absError : r.absError.isFinite = true := by
  obtain ⟨nonneg, nonneg'⟩ := h.toRat_areas_nonneg finite finite'
  rw [h.absError]
  exact Binary64.isFinite_distance finite finite' nonneg nonneg'

theorem Computed.absError_le_larger : r.absError ≤ Scalar.larger r.analytic r.riemann := by
  obtain ⟨nonneg, nonneg'⟩ := h.toRat_areas_nonneg finite finite'
  rw [h.absError]
  exact Binary64.distance_le_larger finite finite' nonneg nonneg'

/-- Either both areas are zero, and so is the relative error, or the error is divided by a positive
number. -/
theorem Computed.divides :
    r.analytic = 0.0 ∧ r.riemann = 0.0 ∧ r.relativeError = 0.0 ∨
      0.0 < Scalar.larger r.analytic r.riemann ∧
        r.relativeError = r.absError / Scalar.larger r.analytic r.riemann := by
  have unsigned := h.analytic.larger h.riemann
  have number := Binary64.ne_nan_of_isFinite (Binary64.isFinite_larger finite finite')
  rw [h.relativeError_eq]
  split
  · next zero =>
    rw [h.scale_beq_zero_iff (Binary64.ne_nan_of_isFinite finite)
      (Binary64.ne_nan_of_isFinite finite'), h.analytic.beq_zero_iff, h.riemann.beq_zero_iff] at zero
    exact .inl ⟨zero.1, zero.2, rfl⟩
  · next nonzero =>
    refine .inr ⟨(Binary64.unsigned_zero.lt_iff unsigned).mpr ⟨unsigned.nonneg number, ?_⟩, rfl⟩
    exact fun zero => nonzero (unsigned.beq_zero_iff.mpr zero.symm)

section Quotient

variable (positive : 0 < toRat (Scalar.larger r.analytic r.riemann))

include positive

theorem Computed.isRounding_quotient :
    IsRounding (toRat r.absError / toRat (Scalar.larger r.analytic r.riemann))
      (r.absError / Scalar.larger r.analytic r.riemann) :=
  Binary64.isRounding_div (h.isFinite_absError finite finite')
    (Binary64.isFinite_larger finite finite') positive.ne'

/-- The error over the larger area is between zero and one. -/
theorem Computed.quotient_bounds :
    0.0 ≤ r.absError / Scalar.larger r.analytic r.riemann ∧
      r.absError / Scalar.larger r.analytic r.riemann ≤ 1.0 := by
  have rounds := h.isRounding_quotient finite finite' positive
  have error := h.isFinite_absError finite finite'
  have nonneg : 0 ≤ toRat r.absError := by
    rw [h.absError, Binary64.toRat_abs]
    exact abs_nonneg _
  have atMost := Binary64.toRat_le_of_le error (Binary64.isFinite_larger finite finite')
    (h.absError_le_larger finite finite')
  exact ⟨rounds.nonneg (div_nonneg nonneg positive.le),
    rounds.le_of_le .one ((div_le_one positive).mpr atMost)⟩

/-- Different areas are so far apart that the quotient is not below the least number. -/
theorem Computed.least_le_quotient (apart : toRat r.analytic ≠ toRat r.riemann) :
    (2 : ℚ) ^ minExponent ≤ toRat r.absError / toRat (Scalar.larger r.analytic r.riemann) := by
  obtain ⟨nonneg, nonneg'⟩ := h.toRat_areas_nonneg finite finite'
  have part := Binary64.part_le_distance finite finite' nonneg nonneg' apart
  rw [← h.absError] at part
  have tiny : (2 : ℚ) ^ minExponent ≤ 1 / 2 ^ 55 := by
    rw [one_div, ← zpow_natCast, ← zpow_neg]
    exact zpow_le_zpow_right₀ one_le_two (by decide)
  have scaled := mul_le_mul_of_nonneg_right tiny positive.le
  rw [le_div_iff₀ positive]
  linarith only [scaled, part]

/-- The error over the larger area is zero only if there is no error. -/
theorem Computed.quotient_beq_zero_iff :
    (r.absError / Scalar.larger r.analytic r.riemann == 0.0) = true ↔
      (r.analytic == r.riemann) = true := by
  have rounds := h.isRounding_quotient finite finite' positive
  constructor
  · intro vanishes
    refine Binary64.beq_of_toRat_eq finite finite' ?_
    by_contra apart
    have some_part := rounds.toRat_pos (Binary64.isFinite_of_beq_zero vanishes)
      (h.least_le_quotient finite finite' positive apart)
    rw [Binary64.toRat_eq_of_beq vanishes, Binary64.toRat_zero] at some_part
    exact lt_irrefl 0 some_part
  · intro same
    have exactly := Binary64.isRounding_distance finite finite'
    rw [Binary64.toRat_eq_of_beq same, sub_self, abs_zero, ← h.absError] at exactly
    rw [exactly.toRat_eq_zero.2, zero_div] at rounds
    obtain ⟨inRange, zero⟩ := rounds.toRat_eq_zero
    exact Binary64.beq_of_toRat_eq inRange rfl zero

end Quotient

theorem Computed.relativeError_bounds : 0.0 ≤ r.relativeError ∧ r.relativeError ≤ 1.0 ∧
    ((r.relativeError == 0.0) = true ↔ (r.analytic == r.riemann) = true) := by
  obtain ⟨zero, zero', relative⟩ | ⟨positive, relative⟩ := h.divides finite finite'
  · rw [relative, zero, zero']
    decide +kernel
  · have positive' : 0 < toRat (Scalar.larger r.analytic r.riemann) :=
      Binary64.toRat_lt_of_lt rfl (Binary64.isFinite_larger finite finite') positive
    obtain ⟨low, high⟩ := h.quotient_bounds finite finite' positive'
    rw [relative]
    exact ⟨low, high, h.quotient_beq_zero_iff finite finite' positive'⟩

end Areas

/-- Whenever a computation returns finite areas, the relative error of its report is a proportion
that only equal areas make zero. -/
theorem compute_proportionate {p q : Polynomial Float} {i : Interval Float} {n : Nat}
    {notes : List (Note Float)} (h : compute p q i n = (notes, .ok r))
    (finite : r.analytic.isFinite = true) (finite' : r.riemann.isFinite = true) :
    r.Proportionate := by
  have computed := (computed_of_compute h).2
  obtain ⟨nonneg, nonneg'⟩ := computed.areas_nonneg finite finite'
  obtain ⟨low, high, vanishes⟩ := computed.relativeError_bounds finite finite'
  exact {
    analytic_nonneg := nonneg
    riemann_nonneg := nonneg'
    isFinite_absError := computed.isFinite_absError finite finite'
    absError_le := computed.absError_le_larger finite finite'
    divides := computed.divides finite finite'
    relativeError_nonneg := low
    relativeError_le_one := high
    relativeError_beq_zero_iff := vanishes }

/-- The constant 1 over the axis on an interval as long as the least number: a third of that is
rounded to zero, so the rectangles have no width and the error is all of the area. -/
theorem compute_proportionate_least :
    ∃ (p q : Polynomial Float) (i : Interval Float),
      p.terms = [(0, 1.0)] ∧ q.terms = [] ∧ i.a = 0.0 ∧ i.b = 5e-324 ∧
      ∃ notes r, compute p q i 3 = (notes, .ok r) ∧ r.analytic = 5e-324 ∧ r.riemann = 0.0 ∧
        r.relativeError = 1.0 ∧ r.Proportionate := by
  let p : Polynomial Float := ⟨[(0, 1.0)], by simp⟩
  let i : Interval Float := ⟨0.0, 5e-324, by decide +kernel⟩
  obtain ⟨notes, r, computed, analytic, riemann, relative⟩ : ∃ notes r,
      compute p Polynomial.zero i 3 = (notes, .ok r) ∧ r.analytic = 5e-324 ∧ r.riemann = 0.0 ∧
        r.relativeError = 1.0 :=
    ⟨_, _, (compute_eq_over ..).trans rfl, by decide +kernel⟩
  have finite : r.analytic.isFinite = true := by
    rw [analytic]
    decide +kernel
  have finite' : r.riemann.isFinite = true := by
    rw [riemann]
    rfl
  exact ⟨p, .zero, i, rfl, rfl, rfl, rfl, notes, r, computed, analytic, riemann, relative,
    compute_proportionate computed finite finite'⟩

end CurveArea.Report
