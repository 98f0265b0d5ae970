import CurveArea.Journal
import CurveArea.Proofs.Binary64.Unsigned

/-!
# What silence says

A computation warns if the areas are more than five percent of the larger one apart. As long as both
areas are finite, no warning means that they agree, and a warning that they do not. If an area is
infinite or NaN, the error over the larger area is NaN, which is not above five percent: such areas
never agree, and no warning tells.
-/

namespace CurveArea

open Binary64 (Unsigned)

/-- No warning among the notes. -/
def Note.Silent {α : Type} (notes : List (Note α)) : Prop := ∀ note ∈ notes, note.level ≠ .warn

instance Note.instDecidableSilent {α : Type} (notes : List (Note α)) :
    Decidable (Note.Silent notes) :=
  inferInstanceAs (Decidable (∀ note ∈ notes, note.level ≠ .warn))

namespace Report

/-- The areas have a distance, and they are both zero or at most five percent of the larger one
apart. -/
def Agrees (r : Report Float) : Prop :=
  r.absError.isNaN = false ∧
    ((r.analytic == 0.0) = true ∧ (r.riemann == 0.0) = true ∨
      r.absError / Scalar.larger r.analytic r.riemann ≤ crossingThreshold)

instance instDecidableAgrees (r : Report Float) : Decidable r.Agrees :=
  inferInstanceAs (Decidable (_ ∧ (_ ∧ _ ∨ _)))

theorem silent_notes_iff {α : Type} [Scalar α] (r : Report α) (i : Interval α) :
    Note.Silent (r.notes i) ↔ ¬ crossingThreshold < r.relativeError := by
  rw [notes]
  split
  · next far => simp [Note.Silent, Note.level, far]
  · next near => simp [Note.Silent, Note.level, near]

/-- What every computed report is: two areas without a sign and their distance. -/
structure Computed (r : Report Float) : Prop where
  analytic : Unsigned r.analytic
  riemann : Unsigned r.riemann
  absError : r.absError = (r.analytic - r.riemann).abs

end Report

theorem Polynomial.unsigned_of_areaOver {p q : Polynomial Float} {i : Interval Float} {area : Float}
    (h : p.areaOver q i = .ok area) : Unsigned area := by
  rw [areaOver] at h
  cases integral : (p.difference q).definiteIntegral i.a i.b with
  | error e =>
    rw [integral] at h
    cases h
  | ok value =>
    rw [integral] at h
    cases h
    exact Binary64.unsigned_abs value

theorem Interval.unsigned_length (i : Interval Float) : Unsigned i.length := by
  obtain ⟨finite, finite', above, -⟩ := properBounds_iff.mp i.proper
  apply Binary64.unsigned_sub_of_lt finite finite'
  by_contra reversed
  exact above ((Binary64.not_lt_iff_le (Binary64.ne_nan_of_isFinite finite)
    (Binary64.ne_nan_of_isFinite finite')).mp reversed)

theorem Interval.unsigned_step (i : Interval Float) (n : Nat) : Unsigned (i.step n) :=
  i.unsigned_length.div (Binary64.unsigned_ofNat n)

/-- A left Riemann sum adds up areas of rectangles, none of which has a sign. -/
theorem Riemann.unsigned_of_leftSum {p q : Polynomial Float} {i : Interval Float} {n : Nat}
    {sum : Float} (h : leftSum p q i n = .ok sum) : Unsigned sum := by
  rw [leftSum] at h
  cases counted : checkCount n with
  | error e =>
    rw [counted] at h
    cases h
  | ok n =>
    rw [counted] at h
    cases h
    refine List.foldlRecOn _ _ Binary64.unsigned_zero ?_
    intro sum unsigned k _
    exact unsigned.add ((Binary64.unsigned_abs _).mul (i.unsigned_step n))

namespace Report

variable {p q : Polynomial Float} {i : Interval Float} {n : Nat} {notes : List (Note Float)}
  {r : Report Float}

theorem computed_of_compute (h : compute p q i n = (notes, .ok r)) :
    notes = r.notes i ∧ r.Computed := by
  rw [compute_eq_over] at h
  cases analytic : p.areaOver q i with
  | error e =>
    rw [analytic] at h
    cases h
  | ok area =>
    rw [analytic] at h
    cases riemann : Riemann.leftSum p q i n with
    | error e =>
      rw [riemann] at h
      cases h
    | ok sum =>
      rw [riemann] at h
      cases h
      exact ⟨rfl, Polynomial.unsigned_of_areaOver analytic,
        Riemann.unsigned_of_leftSum riemann, rfl⟩

theorem Computed.relativeError_eq (h : r.Computed) :
    r.relativeError = if (Scalar.larger r.analytic r.riemann == 0.0) = true then 0.0
      else r.absError / Scalar.larger r.analytic r.riemann := by
  have left : Scalar.abs r.analytic = r.analytic := h.analytic.abs_eq
  have right : Scalar.abs r.riemann = r.riemann := h.riemann.abs_eq
  rw [relativeError, left, right]
  rfl

theorem isFinite_threshold : (crossingThreshold : Float).isFinite = true := by decide +kernel

theorem not_threshold_lt_zero : ¬ (crossingThreshold : Float) < 0.0 := by decide +kernel

/-- The larger area is zero only if both are. -/
theorem Computed.scale_beq_zero_iff (h : r.Computed) (number : r.analytic ≠ Float.nan)
    (number' : r.riemann ≠ Float.nan) :
    (Scalar.larger r.analytic r.riemann == 0.0) = true ↔
      (r.analytic == 0.0) = true ∧ (r.riemann == 0.0) = true := by
  rw [(h.analytic.larger h.riemann).beq_zero_iff, h.analytic.beq_zero_iff, h.riemann.beq_zero_iff]
  exact Binary64.larger_eq_zero_iff h.analytic h.riemann number number'

/-- Finite areas agree unless their relative error is above the threshold. -/
theorem Computed.not_lt_iff_agrees (h : r.Computed) (finite : r.analytic.isFinite = true)
    (finite' : r.riemann.isFinite = true) :
    ¬ crossingThreshold < r.relativeError ↔ r.Agrees := by
  have number := Binary64.ne_nan_of_isFinite finite
  have number' := Binary64.ne_nan_of_isFinite finite'
  have error : r.absError ≠ Float.nan := by
    rw [h.absError]
    exact mt Binary64.abs_eq_nan_iff.mp (Binary64.sub_ne_nan_of_isFinite finite finite')
  -- the scale is zero in the case that is set apart in both definitions
  rw [h.relativeError_eq, Agrees, Binary64.isNaN_eq_false_iff,
    ← h.scale_beq_zero_iff number number']
  split
  · next zero => simp [error, zero, not_threshold_lt_zero]
  · next nonzero =>
    have quotient := Binary64.div_ne_nan error (Binary64.isFinite_larger finite finite') nonzero
    rw [Binary64.not_lt_iff_le (Binary64.ne_nan_of_isFinite isFinite_threshold) quotient]
    simp [error, nonzero]

/-- Areas that are not both finite have an error that is not finite either. Where it is a number,
it is divided by infinity. -/
theorem Computed.div_eq_nan (h : r.Computed)
    (infinite : ¬ (r.analytic.isFinite = true ∧ r.riemann.isFinite = true)) :
    r.absError / Scalar.larger r.analytic r.riemann = Float.nan := by
  have error : r.absError.isFinite = false := by
    rw [h.absError, Binary64.isFinite_abs, Bool.eq_false_iff]
    exact fun finite => infinite (Binary64.isFinite_of_isFinite_sub finite)
  by_cases number : r.analytic = Float.nan
  · rw [h.absError, number, Binary64.nan_sub, Binary64.abs_eq_nan_iff.mpr rfl, Binary64.nan_div]
  · by_cases number' : r.riemann = Float.nan
    · rw [h.absError, number', Binary64.sub_nan, Binary64.abs_eq_nan_iff.mpr rfl, Binary64.nan_div]
    · rw [Binary64.larger_eq_inf h.analytic h.riemann number number'
        ((not_and_or.mp infinite).imp eq_false_of_ne_true eq_false_of_ne_true)]
      exact Binary64.div_inf_eq_nan error

theorem Computed.not_lt_of_infinite (h : r.Computed)
    (infinite : ¬ (r.analytic.isFinite = true ∧ r.riemann.isFinite = true)) :
    ¬ crossingThreshold < r.relativeError := by
  rw [h.relativeError_eq, h.div_eq_nan infinite]
  split
  · exact not_threshold_lt_zero
  · exact Binary64.not_lt_nan _

theorem Computed.not_agrees_of_infinite (h : r.Computed)
    (infinite : ¬ (r.analytic.isFinite = true ∧ r.riemann.isFinite = true)) : ¬ r.Agrees := by
  rintro ⟨-, ⟨zero, zero'⟩ | near⟩
  · exact infinite ⟨Binary64.isFinite_of_beq_zero zero, Binary64.isFinite_of_beq_zero zero'⟩
  · rw [h.div_eq_nan infinite] at near
    exact Binary64.not_nan_le _ near

/-- As long as both areas are finite, a computation without a warning is one whose areas agree.
Areas of which one is infinite or NaN do not agree, and no warning says so. -/
theorem compute_silent_iff (h : compute p q i n = (notes, .ok r)) :
    (r.analytic.isFinite = true ∧ r.riemann.isFinite = true →
      (Note.Silent notes ↔ r.Agrees)) ∧
    (¬ (r.analytic.isFinite = true ∧ r.riemann.isFinite = true) →
      Note.Silent notes ∧ ¬ r.Agrees) := by
  obtain ⟨rfl, computed⟩ := computed_of_compute h
  rw [silent_notes_iff]
  constructor
  · rintro ⟨finite, finite'⟩
    exact computed.not_lt_iff_agrees finite finite'
  · intro infinite
    exact ⟨computed.not_lt_of_infinite infinite, computed.not_agrees_of_infinite infinite⟩

/-- The line `0.25x + 1` above the axis between 0 and 1: four rectangles miss less than three
percent of the area, and no warning is noted. -/
theorem compute_silent_iff_line :
    ∃ (p q : Polynomial Float) (i : Interval Float),
      p.terms = [(0, 1.0), (1, 0.25)] ∧ q.terms = [] ∧ i.a = 0.0 ∧ i.b = 1.0 ∧
      ∃ notes r, compute p q i 4 = (notes, .ok r) ∧ Note.Silent notes ∧ r.Agrees := by
  let p : Polynomial Float := ⟨[(0, 1.0), (1, 0.25)], by simp⟩
  let i : Interval Float := ⟨0.0, 1.0, by decide +kernel⟩
  obtain ⟨notes, r, computed, finite, silent⟩ : ∃ notes r,
      compute p Polynomial.zero i 4 = (notes, .ok r) ∧
        (r.analytic.isFinite = true ∧ r.riemann.isFinite = true) ∧ Note.Silent notes :=
    ⟨_, _, (compute_eq_over ..).trans rfl, by decide +kernel⟩
  exact ⟨p, .zero, i, rfl, rfl, rfl, rfl, notes, r, computed, silent,
    ((compute_silent_iff computed).1 finite).mp silent⟩

/-- The power `x^400` leaves the range of the numbers before 10, and one rectangle at 0 sees nothing
of it: one area is infinite, the other one zero, and the computation is silent. -/
theorem compute_silent_power :
    ∃ (p q : Polynomial Float) (i : Interval Float),
      p.terms = [(400, 1.0)] ∧ q.terms = [(0, 0.0)] ∧ i.a = 0.0 ∧ i.b = 10.0 ∧
      (∀ t ∈ p.terms, t.2.isFinite = true) ∧ (∀ t ∈ q.terms, t.2.isFinite = true) ∧
      ∃ notes r, compute p q i 1 = (notes, .ok r) ∧ Note.Silent notes ∧ ¬ r.Agrees := by
  let p : Polynomial Float := ⟨[(400, 1.0)], by simp⟩
  let q : Polynomial Float := ⟨[(0, 0.0)], by simp⟩
  let i : Interval Float := ⟨0.0, 10.0, by decide +kernel⟩
  have finite : ∀ t ∈ p.terms ++ q.terms, t.2.isFinite = true := by decide +kernel
  refine ⟨p, q, i, rfl, rfl, rfl, rfl, fun t member => finite t (List.mem_append_left _ member),
    fun t member => finite t (List.mem_append_right _ member), _, _,
    (compute_eq_over ..).trans rfl, ?_⟩
  decide +kernel

end Report

end CurveArea
