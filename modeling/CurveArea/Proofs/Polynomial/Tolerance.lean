import CurveArea.Proofs.Polynomial.Exact
import CurveArea.Proofs.Polynomial.Hidden
import Mathlib.Algebra.Order.BigOperators.Group.Finset
import Mathlib.Tactic.Linarith

/-!
# The difference of two curves and the difference of their values

The analytic side evaluates the difference of two polynomials, the numeric side subtracts two
values. In exact arithmetic the two can differ only by what evaluation leaves out, and it leaves out
on both sides: a term of the difference, or a term of one curve only. At each degree this is at most
twice the tolerance times the power.
-/

namespace CurveArea.Polynomial

theorem counted_rat (c : ℚ) : counted c = if |c| < 1 / 10 ^ 10 then 0 else c := by
  rw [counted, isNegligible_rat]
  simp only [decide_eq_true_eq, Scalar.zero_rat]

/-- What counts of a coefficient is less than the tolerance away from it. -/
theorem abs_sub_counted_lt (c : ℚ) : |c - counted c| < 1 / 10 ^ 10 := by
  rw [counted_rat]
  split
  · next small => rwa [sub_zero]
  · rw [sub_self, abs_zero]
    positivity

/-- What counts of a difference is at most twice the tolerance away from the difference of what
counts. -/
theorem abs_counted_sub_le (a b : ℚ) :
    |counted (a - b) - (counted a - counted b)| ≤ 2 * (1 / 10 ^ 10) := by
  have first := abs_sub_counted_lt a
  have second := abs_sub_counted_lt b
  by_cases close : |a - b| < 1 / 10 ^ 10
  · have dropped : counted (a - b) = 0 := by rw [counted_rat, if_pos close]
    rw [dropped, zero_sub, abs_neg]
    -- if one of the two is left out, the other one is still near it
    by_cases smallA : |a| < 1 / 10 ^ 10
    · have droppedA : counted a = 0 := by rw [counted_rat, if_pos smallA]
      by_cases smallB : |b| < 1 / 10 ^ 10
      · have droppedB : counted b = 0 := by rw [counted_rat, if_pos smallB]
        rw [droppedA, droppedB, sub_zero, abs_zero]
        positivity
      · have keptB : counted b = b := by rw [counted_rat, if_neg smallB]
        rw [droppedA, keptB, zero_sub, abs_neg]
        have := abs_sub_abs_le_abs_sub b a
        rw [abs_sub_comm] at this
        linarith
    · have keptA : counted a = a := by rw [counted_rat, if_neg smallA]
      by_cases smallB : |b| < 1 / 10 ^ 10
      · have droppedB : counted b = 0 := by rw [counted_rat, if_pos smallB]
        rw [keptA, droppedB, sub_zero]
        have := abs_sub_abs_le_abs_sub a b
        linarith
      · have keptB : counted b = b := by rw [counted_rat, if_neg smallB]
        rw [keptA, keptB]
        linarith
  · have kept : counted (a - b) = a - b := by rw [counted_rat, if_neg close]
    calc |counted (a - b) - (counted a - counted b)|
        = |(a - counted a) - (b - counted b)| := by rw [kept, sub_sub_sub_comm]
      _ ≤ |a - counted a| + |b - counted b| := abs_sub _ _
      _ ≤ 2 * (1 / 10 ^ 10) := by linarith

/-- The value at a point as a sum over any degrees that hold the stored ones. -/
theorem evaluate_eq_sum (p : Polynomial ℚ) (x : ℚ) {degrees : Finset Degree}
    (inside : ∀ d ∈ p.degrees, d ∈ degrees) :
    p.evaluate x = ∑ d ∈ degrees, counted (p.coefficient d) * x ^ d.toNat := by
  have insidePruned : ∀ d ∈ p.pruned.degrees, d ∈ degrees := by
    intro d kept
    exact inside d (mem_degrees_pruned.mp kept).1
  have sum := sum_terms_eq_sum p.pruned (fun d => x ^ d.toNat) degrees insidePruned
  simp only [coefficient_pruned] at sum
  rw [evaluate_rat, ← sum]
  rfl

theorem coefficient_difference (p q : Polynomial ℚ) (d : Degree) :
    (p.difference q).coefficient d = p.coefficient d - q.coefficient d := by
  by_cases stored : d ∈ (p.difference q).degrees
  · obtain ⟨t, member, rfl⟩ := List.mem_map.mp stored
    rw [coefficient_eq_of_mem member, snd_of_mem_difference member]
  · obtain ⟨absentP, absentQ⟩ := not_or.mp (mt mem_degrees_difference.mpr stored)
    rw [coefficient_eq_zero_of_notMem stored, coefficient_eq_zero_of_notMem absentP,
      coefficient_eq_zero_of_notMem absentQ, Scalar.zero_rat, sub_zero]

/-- The value of the difference of two polynomials is off the difference of their values by at most
twice the tolerance times the powers of all stored degrees. Where every coefficient is zero or
counts, it is the same. -/
theorem evaluate_difference_within (p q : Polynomial ℚ) (x : ℚ) :
    |(p.difference q).evaluate x - (p.evaluate x - q.evaluate x)| ≤
      2 * (1 / 10 ^ 10) * ∑ d ∈ p.degrees.toFinset ∪ q.degrees.toFinset, |x| ^ d.toNat ∧
    ((∀ t ∈ p.terms ++ q.terms ++ (p.difference q).terms, t.2 = 0 ∨ 1 / 10 ^ 10 ≤ |t.2|) →
      (p.difference q).evaluate x = p.evaluate x - q.evaluate x) := by
  constructor
  · let stored : Finset Degree := p.degrees.toFinset ∪ q.degrees.toFinset
    have mem_stored : ∀ d, d ∈ stored ↔ d ∈ p.degrees ∨ d ∈ q.degrees := by simp [stored]
    have valueP := p.evaluate_eq_sum x fun d member => (mem_stored d).mpr (.inl member)
    have valueQ := q.evaluate_eq_sum x fun d member => (mem_stored d).mpr (.inr member)
    have value := (p.difference q).evaluate_eq_sum x fun d member =>
      (mem_stored d).mpr (mem_degrees_difference.mp member)
    have termwise : ∀ d ∈ stored,
        |(counted ((p.difference q).coefficient d) -
            (counted (p.coefficient d) - counted (q.coefficient d))) * x ^ d.toNat| ≤
          2 * (1 / 10 ^ 10) * |x| ^ d.toNat := by
      intro d _
      rw [abs_mul, abs_pow, coefficient_difference]
      exact mul_le_mul_of_nonneg_right (abs_counted_sub_le _ _) (by positivity)
    calc |(p.difference q).evaluate x - (p.evaluate x - q.evaluate x)|
        = |∑ d ∈ stored, (counted ((p.difference q).coefficient d) -
            (counted (p.coefficient d) - counted (q.coefficient d))) * x ^ d.toNat| := by
          simp only [value, valueP, valueQ, sub_mul, Finset.sum_sub_distrib]
      _ ≤ ∑ d ∈ stored, |(counted ((p.difference q).coefficient d) -
            (counted (p.coefficient d) - counted (q.coefficient d))) * x ^ d.toNat| :=
          Finset.abs_sum_le_sum_abs _ _
      _ ≤ ∑ d ∈ stored, 2 * (1 / 10 ^ 10) * |x| ^ d.toNat := Finset.sum_le_sum termwise
      _ = 2 * (1 / 10 ^ 10) * ∑ d ∈ stored, |x| ^ d.toNat := (Finset.mul_sum ..).symm
  · intro clear
    simp only [List.forall_mem_append] at clear
    obtain ⟨⟨clearP, clearQ⟩, clear⟩ := clear
    rw [evaluate_eq_termSum clear, evaluate_eq_termSum clearP, evaluate_eq_termSum clearQ,
      termSum_difference]

/-- The parabola `3 x^2` and the line `2 x - 1` with a stored zero: nothing is left out. -/
theorem evaluate_difference_within_clear :
    ∃ p q : Polynomial ℚ, p.terms = [(1, 0), (2, 3)] ∧ q.terms = [(0, -1), (1, 2)] ∧
      ∀ x, (p.difference q).evaluate x = p.evaluate x - q.evaluate x := by
  obtain ⟨p, termsP⟩ : ∃ p : Polynomial ℚ, p.terms = [(1, 0), (2, 3)] := ⟨⟨_, by simp⟩, rfl⟩
  obtain ⟨q, termsQ⟩ : ∃ q : Polynomial ℚ, q.terms = [(0, -1), (1, 2)] := ⟨⟨_, by simp⟩, rfl⟩
  have degrees : degreesUnion p q = [0, 1, 2] := by
    rw [degreesUnion, Polynomial.degrees, Polynomial.degrees, termsP, termsQ]
    decide
  have terms : (p.difference q).terms = [(0, 1), (1, -2), (2, 3)] := by
    rw [terms_difference, degrees]
    simp only [coefficient, termsP, termsQ]
    decide +kernel
  refine ⟨p, q, termsP, termsQ, fun x => (evaluate_difference_within p q x).2 ?_⟩
  rw [termsP, termsQ, terms]
  norm_num

end CurveArea.Polynomial
