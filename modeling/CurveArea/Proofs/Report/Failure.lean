import CurveArea.Proofs.Polynomial.Entries
import CurveArea.Proofs.Riemann.Rectangles
import CurveArea.Report

/-!
# The one failure of a computation

An interval keeps its bounds in order, finite and close enough together, so checking them once more
cannot fail, and a positive number of rectangles is accepted. What is left is a degree that has no
successor. The difference stores every degree of either curve, cancelled or not, so the integral of
the difference fails if and only if one of the curves stores the largest degree.
-/

namespace CurveArea.Report

variable {α : Type} [Scalar α] {p q : Polynomial α} {i : Interval α} {n : Nat}

/-- The largest degree fails before anything is noted, whatever the number of rectangles. -/
theorem compute_of_max (hasMax : Degree.max ∈ p.degrees ∨ Degree.max ∈ q.degrees) :
    compute p q i n = ([], .error (.degreeOverflow Degree.max)) := by
  rw [compute_eq_over, Polynomial.areaOver_of_max i hasMax]

theorem exists_compute (positive : 1 ≤ n)
    (noMax : ¬ (Degree.max ∈ p.degrees ∨ Degree.max ∈ q.degrees)) :
    ∃ r, compute p q i n = (r.notes i, .ok r) := by
  obtain ⟨area, integrated⟩ := Polynomial.exists_areaOver i noMax
  rw [compute_eq_over, integrated, Riemann.leftSum_of_pos p q i positive]
  exact ⟨_, rfl⟩

/-- With at least one rectangle, checking the bounds of the interval and the number again makes no
difference to either area, and a computation fails if and only if one of the curves stores the
largest degree, with whatever coefficient. That failure is the only one, and nothing has been noted
before it. -/
theorem compute_error_iff (p q : Polynomial α) (i : Interval α) (positive : 1 ≤ n) :
    (Interval.between i.a i.b = .ok i ∧ Riemann.checkCount n = (.ok n : Except (AreaError α) Nat) ∧
      p.areaBetween q i.a i.b = p.areaOver q i ∧
      Riemann.leftSumBetween p q i.a i.b n = Riemann.leftSum p q i n) ∧
    ((∃ e, (compute p q i n).2 = .error e) ↔
      4294967295 ∈ p.degrees ∨ 4294967295 ∈ q.degrees) ∧
    ∀ notes e, compute p q i n = (notes, .error e) →
      e = .degreeOverflow 4294967295 ∧ notes = [] := by
  refine ⟨⟨i.between_self, Riemann.checkCount_of_pos positive, Polynomial.areaBetween_self p q i,
    Riemann.leftSumBetween_eq_leftSum i.between_self p q n⟩, ?_⟩
  change (_ ↔ Degree.max ∈ p.degrees ∨ Degree.max ∈ q.degrees) ∧ _
  by_cases hasMax : Degree.max ∈ p.degrees ∨ Degree.max ∈ q.degrees
  · rw [compute_of_max hasMax]
    refine ⟨iff_of_true ⟨_, rfl⟩ hasMax, ?_⟩
    rintro notes e ⟨⟩
    exact ⟨rfl, rfl⟩
  · obtain ⟨r, computed⟩ := exists_compute (i := i) positive hasMax
    rw [computed]
    refine ⟨iff_of_false ?_ hasMax, nofun⟩
    rintro ⟨e, ⟨⟩⟩

/-- The line `x` with a term of the largest degree that has cancelled, over the axis from 0 to 1:
the computation fails without a note. -/
theorem compute_error_iff_cancelled :
    ∃ (p : Polynomial Float) (i : Interval Float) (notes : List (Note Float))
      (e : AreaError Float),
      p.terms = [(1, 1.0), (4294967295, 0.0)] ∧ Interval.between 0.0 1.0 = .ok i ∧ 1 ≤ 4 ∧
      compute p .zero i 4 = (notes, .error e) ∧ e = .degreeOverflow 4294967295 ∧ notes = [] := by
  let p : Polynomial Float := ⟨[(1, 1.0), (4294967295, 0.0)], by decide⟩
  let i : Interval Float := ⟨0.0, 1.0, by decide +kernel⟩
  have stored : 4294967295 ∈ p.degrees := by decide
  obtain ⟨⟨valid, -⟩, fails, only⟩ := compute_error_iff p .zero i (by decide : 1 ≤ 4)
  obtain ⟨e, failed⟩ := fails.mpr (.inl stored)
  have outcome : compute p .zero i 4 = ((compute p .zero i 4).1, .error e) := Prod.ext rfl failed
  exact ⟨p, i, _, e, rfl, valid, by decide, outcome, only _ e outcome⟩

end CurveArea.Report
