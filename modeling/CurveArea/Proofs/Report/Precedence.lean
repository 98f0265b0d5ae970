import CurveArea.Plan
import CurveArea.Proofs.Report.Failure

/-!
# Which of two failures is told

Without rectangles there is nothing to add up, and the sum says so before it looks at the curves, as
the list of rectangles and the plan of a task do. A computation comes to the sum only after the
integral, so a curve that cannot be integrated is what it tells of instead.
-/

namespace CurveArea

/-- A task without rectangles does nothing and fails with their number, whatever else is wrong with
it. -/
theorem Task.plan_of_not_pos {task : Task} (none : ¬ 0 < task.n) :
    task.plan = ⟨[], some (.invalidSubdivision task.n)⟩ := by
  have refused : (Riemann.checkCount task.n : Except (AreaError Float) Nat) =
      .error (.invalidSubdivision task.n) := if_neg none
  have failed : task.setting = .error (.invalidSubdivision task.n) := by
    rw [setting, refused]
    rfl
  rw [plan, failed]

namespace Report

variable {α : Type} [Scalar α] {p q : Polynomial α} {i : Interval α}

/-- If the integral comes out, the number of rectangles is what the computation fails with. -/
theorem compute_zero_of_noMax (noMax : ¬ (Degree.max ∈ p.degrees ∨ Degree.max ∈ q.degrees)) :
    compute p q i 0 = ([], .error (.invalidSubdivision 0)) := by
  obtain ⟨area, integrated⟩ := Polynomial.exists_areaOver i noMax
  rw [compute_eq_over, integrated, Riemann.leftSum_zero]

/-- Without rectangles a computation fails before it notes anything. The failure names the number
of rectangles if and only if neither curve stores the largest degree, and that degree otherwise,
with whatever coefficient. The sum, the rectangles and the plan of a task name the number whatever
the curves are. -/
theorem compute_zero_iff (p q : Polynomial α) (i : Interval α) :
    (compute p q i 0 = ([], .error (.invalidSubdivision 0)) ↔
      4294967295 ∉ p.degrees ∧ 4294967295 ∉ q.degrees) ∧
    (compute p q i 0 = ([], .error (.degreeOverflow 4294967295)) ↔
      4294967295 ∈ p.degrees ∨ 4294967295 ∈ q.degrees) ∧
    Riemann.leftSumBetween p q i.a i.b 0 = .error (.invalidSubdivision 0) ∧
    Riemann.rectangles p q i 0 = .error (.invalidSubdivision 0) ∧
    ∀ task : Task, ({ task with n := 0 } : Task).plan = ⟨[], some (.invalidSubdivision 0)⟩ := by
  rw [← not_or, Riemann.leftSumBetween_eq_leftSum i.between_self]
  change (_ ↔ ¬ (Degree.max ∈ p.degrees ∨ Degree.max ∈ q.degrees)) ∧
    (_ ↔ Degree.max ∈ p.degrees ∨ Degree.max ∈ q.degrees) ∧ _
  have others : Riemann.leftSum p q i 0 = .error (.invalidSubdivision 0) ∧
      Riemann.rectangles p q i 0 = .error (.invalidSubdivision 0) ∧
      ∀ task : Task, ({ task with n := 0 } : Task).plan = ⟨[], some (.invalidSubdivision 0)⟩ :=
    ⟨Riemann.leftSum_zero p q i, Riemann.rectangles_zero p q i,
      fun task => Task.plan_of_not_pos (lt_irrefl 0)⟩
  by_cases hasMax : Degree.max ∈ p.degrees ∨ Degree.max ∈ q.degrees
  · have told := compute_of_max (i := i) (n := 0) hasMax
    rw [told]
    exact ⟨iff_of_false nofun (not_not_intro hasMax), iff_of_true rfl hasMax, others⟩
  · have told := compute_zero_of_noMax (i := i) hasMax
    rw [told]
    exact ⟨iff_of_true rfl hasMax, iff_of_false nofun hasMax, others⟩

/-- Over `x^4294967295` and the axis from 0 to 1 a computation without rectangles fails with the
degree and not with their number. -/
theorem compute_zero_overflow :
    ∃ (p : Polynomial Float) (i : Interval Float),
      p.terms = [(4294967295, 1.0)] ∧ Interval.between 0.0 1.0 = .ok i ∧
      compute p .zero i 0 = ([], .error (.degreeOverflow 4294967295)) ∧
      compute p .zero i 0 ≠ ([], .error (.invalidSubdivision 0)) := by
  let p : Polynomial Float := ⟨[(4294967295, 1.0)], by simp⟩
  let i : Interval Float := ⟨0.0, 1.0, by decide +kernel⟩
  have overflows : compute p .zero i 0 = ([], .error (.degreeOverflow 4294967295)) :=
    compute_of_max (.inl (by decide))
  refine ⟨p, i, rfl, i.between_self, overflows, ?_⟩
  rw [overflows]
  exact nofun

end Report

end CurveArea
