import CurveArea.Proofs.Interval.Grid
import CurveArea.Proofs.Polynomial.Difference
import CurveArea.Proofs.Polynomial.Hidden
import CurveArea.Proofs.Report.Silence
import CurveArea.Proofs.Riemann.Rectangles

/-!
# Identical curves

Between a curve and itself there is no area, and both computations find exactly none. The difference
keeps an entry for every degree, a zero each, and none of them counts in the integral, so the same
empty sum is taken from itself. In the Riemann sum every rectangle is flat, and what is flat has the
area zero whatever its width, so the sum never leaves zero.
-/

namespace CurveArea

/-- The integral of what cancels everywhere has no term that counts. -/
theorem Polynomial.integralTerms_self {p : Polynomial Float}
    (finite : ∀ t ∈ p.terms, t.2.isFinite = true) : integralTerms p p = [] := by
  rw [integralTerms, List.map_eq_nil_iff, List.filter_eq_nil_iff]
  intro d _
  have cancels : p.coefficient d - p.coefficient d = 0.0 - 0.0 :=
    Binary64.sub_self_of_isFinite (isFinite_coefficient finite d)
  have vanishes : isNegligible (differenceEntry p p d) = true := by
    rw [differenceEntry, integratedEntry, cancels]
    exact isNegligible_integratedEntry_zero d
  simp only [vanishes, Bool.not_true, Bool.false_eq_true, not_false_eq_true]

theorem Polynomial.areaOver_self {p : Polynomial Float}
    (finite : ∀ t ∈ p.terms, t.2.isFinite = true) (noMax : Degree.max ∉ p.degrees)
    (i : Interval Float) : p.areaOver p i = .ok 0.0 := by
  obtain ⟨integral, found, counts⟩ := exists_integral (not_or.mpr ⟨noMax, noMax⟩)
  have value : ∀ x, integral.evaluate x = -0.0 := by
    intro x
    rw [evaluate, counts, integralTerms_self finite]
    rfl
  rw [areaOver, definiteIntegral, found]
  change Except.ok (Scalar.abs (integral.evaluate i.b - integral.evaluate i.a)) = .ok 0.0
  rw [value, value]
  rfl

section Riemann

variable {p : Polynomial Float} {i : Interval Float} {n : Nat}

/-- A rectangle between a curve and itself is flat. -/
theorem Riemann.area_rectangleAt_self (positive : 0 < n) {x : Float}
    (value : (p.evaluate x).isFinite = true) : (rectangleAt p p (i.step n) x).area = 0.0 := by
  have height : Scalar.abs (p.evaluate x - p.evaluate x) = 0.0 := by
    rw [Binary64.sub_self_of_isFinite value]
    rfl
  rw [Rectangle.area, rectangleAt, height]
  exact (i.unsigned_step n).zero_mul (i.isFinite_step positive)

/-- Adding up flat rectangles never leaves zero. -/
theorem Riemann.leftSum_self (positive : 0 < n)
    (values : ∀ k < n, (p.evaluate (i.point (i.step n) k)).isFinite = true) :
    leftSum p p i n = .ok 0.0 := by
  rw [leftSum_of_pos p p i positive]
  refine congrArg Except.ok (List.foldlRecOn (motive := (· = 0.0)) _ _ rfl ?_)
  rintro sum rfl k member
  rw [area_rectangleAt_self positive (values k (List.mem_range.mp member))]
  rfl

end Riemann

namespace Report

/-- A computation with a curve and itself returns zero areas and no error, and warns of nothing, if
the curve can be integrated and its values are in range wherever it is sampled. -/
theorem compute_self {p : Polynomial Float} {i : Interval Float} {n : Nat}
    (finite : ∀ t ∈ p.terms, t.2.isFinite = true) (noMax : 4294967295 ∉ p.degrees)
    (positive : 1 ≤ n)
    (values : ∀ k < n, (p.evaluate (i.point (i.step n) k)).isFinite = true) :
    ∃ notes r, compute p p i n = (notes, .ok r) ∧
      r = { analytic := 0.0, riemann := 0.0, absError := 0.0, subdivisions := n } ∧
      r.relativeError = 0.0 ∧ Note.Silent notes := by
  let r : Report Float := { analytic := 0.0, riemann := 0.0, absError := 0.0, subdivisions := n }
  have computed : compute p p i n = (r.notes i, .ok r) := by
    rw [compute_eq_over, Polynomial.areaOver_self finite noMax, Riemann.leftSum_self positive values]
    rfl
  have noScale :
      (Scalar.larger (Scalar.abs 0.0) (Scalar.abs 0.0) == (Scalar.zero : Float)) = true := by
    decide +kernel
  have relative : r.relativeError = 0.0 := if_pos noScale
  refine ⟨r.notes i, r, computed, rfl, relative, ?_⟩
  rw [silent_notes_iff, relative]
  exact not_threshold_lt_zero

/-- The parabola `3x^2 - 2` and itself from -2 to 5. -/
theorem compute_self_parabola :
    ∃ (p : Polynomial Float) (i : Interval Float), p.terms = [(0, -2.0), (2, 3.0)] ∧
      i.a = -2.0 ∧ i.b = 5.0 ∧ (∀ t ∈ p.terms, t.2.isFinite = true) ∧
      4294967295 ∉ p.degrees ∧ 1 ≤ 10 ∧
      (∀ k < 10, (p.evaluate (i.point (i.step 10) k)).isFinite = true) ∧
      ∃ notes r, compute p p i 10 = (notes, .ok r) ∧ r.relativeError = 0.0 ∧ Note.Silent notes := by
  let p : Polynomial Float := ⟨[(0, -2.0), (2, 3.0)], by simp⟩
  let i : Interval Float := ⟨-2.0, 5.0, by decide +kernel⟩
  have finite : ∀ t ∈ p.terms, t.2.isFinite = true := by decide +kernel
  have noMax : 4294967295 ∉ p.degrees := by decide
  have values : ∀ k < 10, (p.evaluate (i.point (i.step 10) k)).isFinite = true := by
    decide +kernel
  obtain ⟨notes, r, computed, -, relative, silent⟩ :=
    compute_self finite noMax (by decide : 1 ≤ 10) values
  exact ⟨p, i, rfl, rfl, rfl, finite, noMax, by decide, values, notes, r, computed, relative,
    silent⟩

end Report

end CurveArea
