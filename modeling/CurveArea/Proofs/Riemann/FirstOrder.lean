import CurveArea.Proofs.Polynomial.Exact
import CurveArea.Report
import Mathlib.Algebra.BigOperators.Ring.List
import Mathlib.Algebra.Order.BigOperators.Group.List
import Mathlib.Tactic.Linarith
import Mathlib.Tactic.LinearCombination
import Mathlib.Tactic.Ring

/-!
# The left Riemann sum is exact to first order

For a distance that is a polynomial with no negative coefficient, on an interval right of zero, the
area over one part lies between the rectangle at its left edge and the one at its right edge. Added
up over the parts the left sum falls short of the integral by at most the width of a part times the
growth of the distance. Both areas of a report are compared in this way, without rounding.
-/

namespace CurveArea

namespace Polynomial

/-- The integral of a power lies between the rectangles at its ends. -/
theorem pow_succ_sub_bounds {x y : ℚ} (hx : 0 ≤ x) (hxy : x ≤ y) (d : ℕ) :
    ((d : ℚ) + 1) * (x ^ d * (y - x)) ≤ y ^ (d + 1) - x ^ (d + 1) ∧
      y ^ (d + 1) - x ^ (d + 1) ≤ ((d : ℚ) + 1) * (y ^ d * (y - x)) := by
  have hy : 0 ≤ y := hx.trans hxy
  induction d with
  | zero => simp
  | succ d ih =>
    obtain ⟨lower, upper⟩ := ih
    have split : y ^ (d + 1 + 1) - x ^ (d + 1 + 1) =
        y * (y ^ (d + 1) - x ^ (d + 1)) + x ^ (d + 1) * (y - x) := by ring
    have width : 0 ≤ y - x := sub_nonneg.mpr hxy
    have power_le : x ^ (d + 1) ≤ y ^ (d + 1) := pow_le_pow_left₀ hx hxy _
    have left : x * (((d : ℚ) + 1) * (x ^ d * (y - x))) ≤ y * (y ^ (d + 1) - x ^ (d + 1)) :=
      mul_le_mul hxy lower (by positivity) hy
    have right := mul_le_mul_of_nonneg_left upper hy
    have edge := mul_le_mul_of_nonneg_right power_le width
    rw [split]
    push_cast
    constructor
    · linear_combination left
    · linear_combination right + edge

theorem termIntegral_self (h : Polynomial ℚ) (x : ℚ) : h.termIntegral x x = 0 := by
  simp [termIntegral]

theorem termIntegral_add (h : Polynomial ℚ) (x y z : ℚ) :
    h.termIntegral x y + h.termIntegral y z = h.termIntegral x z := by
  rw [termIntegral, termIntegral, ← List.sum_map_add]
  apply congrArg List.sum
  apply List.map_congr_left
  intro t _
  ring

theorem termSum_nonneg {h : Polynomial ℚ} (nonneg : ∀ t ∈ h.terms, 0 ≤ t.2) {x : ℚ}
    (hx : 0 ≤ x) : 0 ≤ h.termSum x := by
  apply List.sum_nonneg
  intro y member
  obtain ⟨t, stored, rfl⟩ := List.mem_map.mp member
  exact mul_nonneg (nonneg t stored) (pow_nonneg hx _)

/-- The area over one part lies between the rectangles at its ends. -/
theorem termIntegral_bounds {h : Polynomial ℚ} (nonneg : ∀ t ∈ h.terms, 0 ≤ t.2) {x y : ℚ}
    (hx : 0 ≤ x) (hxy : x ≤ y) :
    h.termSum x * (y - x) ≤ h.termIntegral x y ∧
      h.termIntegral x y ≤ h.termSum y * (y - x) := by
  rw [termIntegral_eq, termSum, termSum, ← List.sum_map_mul_right, ← List.sum_map_mul_right]
  constructor
  · apply List.sum_le_sum
    intro t stored
    have bound := (pow_succ_sub_bounds hx hxy t.1.toNat).1
    rw [mul_assoc]
    refine mul_le_mul_of_nonneg_left ?_ (nonneg t stored)
    rw [le_div_iff₀ (by positivity)]
    linarith
  · apply List.sum_le_sum
    intro t stored
    have bound := (pow_succ_sub_bounds hx hxy t.1.toNat).2
    rw [mul_assoc]
    refine mul_le_mul_of_nonneg_left ?_ (nonneg t stored)
    rw [div_le_iff₀ (by positivity)]
    linarith

theorem termIntegral_nonneg {h : Polynomial ℚ} (nonneg : ∀ t ∈ h.terms, 0 ≤ t.2) {x y : ℚ}
    (hx : 0 ≤ x) (hxy : x ≤ y) : 0 ≤ h.termIntegral x y := by
  have lower := (termIntegral_bounds nonneg hx hxy).1
  exact (mul_nonneg (termSum_nonneg nonneg hx) (sub_nonneg.mpr hxy)).trans lower

/-- Without terms of a higher degree the value is the same everywhere. -/
theorem termSum_eq_of_constant {h : Polynomial ℚ} (constant : ∀ t ∈ h.terms, t.1 ≠ 0 → t.2 = 0)
    (x y : ℚ) : h.termSum x = h.termSum y := by
  apply congrArg List.sum
  apply List.map_congr_left
  intro t member
  by_cases degree : t.1 = 0
  · simp [degree]
  · rw [constant t member degree, zero_mul, zero_mul]

section Above

variable {p q : Polynomial ℚ}
  (above : ∀ d : Degree, p.coefficient d - q.coefficient d = 0 ∨
    ((d.toNat : ℚ) + 1) * (1 / 10 ^ 10) ≤ p.coefficient d - q.coefficient d)

include above

theorem nonneg_difference : ∀ t ∈ (p.difference q).terms, 0 ≤ t.2 := by
  intro t member
  rw [snd_of_mem_difference member]
  rcases above t.1 with zero | counts
  · exact zero.ge
  · exact le_trans (by positivity) counts

theorem stays_difference : ∀ t ∈ (p.difference q).terms,
    t.2 = 0 ∨ ((t.1.toNat : ℚ) + 1) * (1 / 10 ^ 10) ≤ |t.2| := by
  intro t member
  rw [snd_of_mem_difference member]
  exact (above t.1).imp_right fun counts => counts.trans (le_abs_self _)

theorem stays_difference_exchanged : ∀ t ∈ (q.difference p).terms,
    t.2 = 0 ∨ ((t.1.toNat : ℚ) + 1) * (1 / 10 ^ 10) ≤ |t.2| := by
  intro t member
  rw [snd_of_mem_difference member, abs_sub_comm, sub_eq_zero, eq_comm, ← sub_eq_zero]
  exact (above t.1).imp_right fun counts => counts.trans (le_abs_self _)

end Above

end Polynomial

namespace Riemann

open CurveArea.Polynomial

/-- The rectangles over the first `m` parts. -/
def partialSum (h : Polynomial ℚ) (a width : ℚ) (m : ℕ) : ℚ :=
  ((List.range m).map fun k : ℕ => h.termSum (a + k * width) * width).sum

theorem partialSum_succ (h : Polynomial ℚ) (a width : ℚ) (m : ℕ) :
    partialSum h a width (m + 1) =
      partialSum h a width m + h.termSum (a + m * width) * width := by
  simp [partialSum, List.range_succ]

/-- After each part the rectangles fall short of the area by at most the width times the growth of
the distance so far. -/
theorem partialSum_bounds {h : Polynomial ℚ} (nonneg : ∀ t ∈ h.terms, 0 ≤ t.2) {a width : ℚ}
    (ha : 0 ≤ a) (hw : 0 ≤ width) (m : ℕ) :
    0 ≤ h.termIntegral a (a + m * width) - partialSum h a width m ∧
      h.termIntegral a (a + m * width) - partialSum h a width m ≤
        width * (h.termSum (a + m * width) - h.termSum a) := by
  induction m with
  | zero => simp [partialSum, termIntegral_self]
  | succ m ih =>
    have left : 0 ≤ a + m * width := by positivity
    have next : a + ((m + 1 : ℕ) : ℚ) * width = a + m * width + width := by
      push_cast
      ring
    obtain ⟨lower, upper⟩ := termIntegral_bounds nonneg left (le_add_of_nonneg_right hw)
    rw [add_sub_cancel_left] at lower upper
    rw [partialSum_succ, next, ← termIntegral_add h a (a + m * width)]
    constructor
    · linarith [ih.1]
    · linarith [ih.2]

/-- The left sum of two curves whose distance is a polynomial without negative coefficients. -/
theorem leftSum_eq_partialSum {p q h : Polynomial ℚ} {i : Interval ℚ} {n : ℕ} (hn : 1 ≤ n)
    (ha : 0 ≤ i.a) (hw : 0 ≤ i.step n) (nonneg : ∀ t ∈ h.terms, 0 ≤ t.2)
    (distance : ∀ x, |p.evaluate x - q.evaluate x| = |h.termSum x|) :
    leftSum p q i n = .ok (partialSum h i.a (i.step n) n) := by
  have height : ∀ k : ℕ, Scalar.abs (p.evaluate (i.point (i.step n) k) -
      q.evaluate (i.point (i.step n) k)) = h.termSum (i.a + k * i.step n) := by
    intro k
    rw [Scalar.abs_rat, distance]
    exact abs_of_nonneg (termSum_nonneg nonneg (add_nonneg ha (mul_nonneg k.cast_nonneg hw)))
  rw [leftSum, checkCount_of_pos hn]
  change Except.ok ((List.range n).foldl (fun sum k => sum + Scalar.abs
    (p.evaluate (i.point (i.step n) k) - q.evaluate (i.point (i.step n) k)) * i.step n) 0) = _
  simp only [height]
  rw [foldl_add_eq_sum, zero_add, partialSum]

end Riemann

namespace Report

open CurveArea.Polynomial Riemann

/-- The report of two curves whose difference is a polynomial without negative coefficients, on
either side of each other. -/
theorem compute_eq {p q h : Polynomial ℚ} {i : Interval ℚ} {n : ℕ} (hn : 1 ≤ n) (ha : 0 ≤ i.a)
    (hw : 0 ≤ i.step n) (nonneg : ∀ t ∈ h.terms, 0 ≤ t.2)
    (distance : ∀ x, |p.evaluate x - q.evaluate x| = |h.termSum x|) {area : ℚ}
    (integral : (p.difference q).definiteIntegral i.a i.b = .ok area) :
    (compute p q i n).2 = .ok
      { analytic := |area|, riemann := partialSum h i.a (i.step n) n,
        absError := |(|area| - partialSum h i.a (i.step n) n)|, subdivisions := n } := by
  have analytic : p.areaOver q i = .ok |area| := by
    rw [areaOver, integral]
    change Except.ok (Scalar.abs area) = _
    rw [Scalar.abs_rat]
  rw [compute_eq_over, analytic, leftSum_eq_partialSum hn ha hw nonneg distance]
  simp only [Scalar.abs_rat]

/-- Let the first curve lie above the second by a polynomial whose coefficients are zero or at least
the tolerance times the next degree, right of zero. Then the area by the integral exceeds the left
sum by at most the width of a part times the growth of the distance, and not at all if the distance
is constant. The order of the curves makes no difference to the report. -/
theorem compute_first_order {p q : Polynomial ℚ}
    (clearP : ∀ t ∈ p.terms, t.2 = 0 ∨ 1 / 10 ^ 10 ≤ |t.2|)
    (clearQ : ∀ t ∈ q.terms, t.2 = 0 ∨ 1 / 10 ^ 10 ≤ |t.2|)
    (noMaxP : Degree.max ∉ p.degrees) (noMaxQ : Degree.max ∉ q.degrees)
    (above : ∀ d : Degree, p.coefficient d - q.coefficient d = 0 ∨
      ((d.toNat : ℚ) + 1) * (1 / 10 ^ 10) ≤ p.coefficient d - q.coefficient d)
    {a b : ℚ} (ha : 0 ≤ a) (hab : a < b) {n : ℕ} (hn : 1 ≤ n) :
    ∃ i r, Interval.between a b = .ok i ∧
      (compute p q i n).2 = .ok r ∧ (compute q p i n).2 = .ok r ∧
      0 ≤ r.analytic - r.riemann ∧
      r.analytic - r.riemann ≤
        (b - a) / n * ((p.difference q).evaluate b - (p.difference q).evaluate a) ∧
      ((∀ d : Degree, d ≠ 0 → p.coefficient d = q.coefficient d) → r.absError = 0) := by
  have proper : properBounds a b = true := by
    simp [properBounds, hab]
  let i : Interval ℚ := ⟨a, b, proper⟩
  have hw : 0 ≤ i.step n := div_nonneg (sub_nonneg.mpr hab.le) n.cast_nonneg
  have last : a + n * i.step n = b := by
    change a + n * ((b - a) / n) = b
    rw [mul_div_cancel₀ _ (Nat.cast_ne_zero.mpr (by omega)), add_sub_cancel]
  have stays := stays_difference above
  have nonneg := nonneg_difference above
  have distance : ∀ x, |p.evaluate x - q.evaluate x| = |(p.difference q).termSum x| := by
    intro x
    rw [evaluate_eq_termSum clearP, evaluate_eq_termSum clearQ, termSum_difference]
  have integral : (p.difference q).definiteIntegral i.a i.b =
      .ok ((p.difference q).termIntegral a b) :=
    definiteIntegral_eq_termIntegral (noMax_difference noMaxP noMaxQ) stays a b
  have exchangedIntegral : (q.difference p).definiteIntegral i.a i.b =
      .ok (-(p.difference q).termIntegral a b) := by
    rw [termIntegral_difference, neg_sub, ← termIntegral_difference]
    exact definiteIntegral_eq_termIntegral (noMax_difference noMaxQ noMaxP)
      (stays_difference_exchanged above) a b
  obtain ⟨short, near⟩ := partialSum_bounds nonneg ha hw n
  rw [last] at short near
  have computed := compute_eq hn ha hw nonneg distance integral
  have exchanged := compute_eq hn ha hw nonneg
    (fun x => (abs_sub_comm _ _).trans (distance x)) exchangedIntegral
  have area : |(p.difference q).termIntegral a b| = (p.difference q).termIntegral a b :=
    abs_of_nonneg (termIntegral_nonneg nonneg ha hab.le)
  rw [area] at computed
  rw [abs_neg, area] at exchanged
  refine ⟨i, _, dif_pos proper, computed, exchanged, short, ?_, ?_⟩
  · rw [evaluate_eq_termSum (clear_of_stays stays), evaluate_eq_termSum (clear_of_stays stays)]
    exact near
  · intro constant
    have level : (p.difference q).termSum b = (p.difference q).termSum a := by
      refine termSum_eq_of_constant (fun t member degree => ?_) b a
      rw [snd_of_mem_difference member, constant t.1 degree, sub_self]
    rw [level, sub_self, mul_zero] at near
    exact abs_eq_zero.mpr (le_antisymm near short)

/-- The parabola `x^2 + 3` above the line `1` on the interval from 0 to 2, in four parts. -/
theorem compute_first_order_parabola :
    ∃ p q : Polynomial ℚ, p.terms = [(0, 3), (2, 1)] ∧ q.terms = [(0, 1)] ∧
      (∀ t ∈ p.terms, t.2 = 0 ∨ 1 / 10 ^ 10 ≤ |t.2|) ∧
      (∀ t ∈ q.terms, t.2 = 0 ∨ 1 / 10 ^ 10 ≤ |t.2|) ∧
      Degree.max ∉ p.degrees ∧ Degree.max ∉ q.degrees ∧
      (∀ d : Degree, p.coefficient d - q.coefficient d = 0 ∨
        ((d.toNat : ℚ) + 1) * (1 / 10 ^ 10) ≤ p.coefficient d - q.coefficient d) ∧
      ∃ i r, Interval.between 0 2 = .ok i ∧ (compute p q i 4).2 = .ok r ∧
        0 ≤ r.analytic - r.riemann ∧ r.analytic - r.riemann ≤ 2 := by
  obtain ⟨p, p_eq⟩ : ∃ p : Polynomial ℚ, p.terms = [(0, 3), (2, 1)] :=
    ⟨⟨[(0, 3), (2, 1)], by simp⟩, rfl⟩
  obtain ⟨q, q_eq⟩ : ∃ q : Polynomial ℚ, q.terms = [(0, 1)] := ⟨⟨[(0, 1)], by simp⟩, rfl⟩
  have two : (2 : Degree).toNat = 2 := rfl
  have clearP : ∀ t ∈ p.terms, t.2 = 0 ∨ 1 / 10 ^ 10 ≤ |t.2| := by
    rw [p_eq]
    norm_num [abs_of_pos]
  have clearQ : ∀ t ∈ q.terms, t.2 = 0 ∨ 1 / 10 ^ 10 ≤ |t.2| := by
    rw [q_eq]
    norm_num [abs_of_pos]
  have noMaxP : Degree.max ∉ p.degrees := by
    rw [degrees, p_eq]
    decide
  have noMaxQ : Degree.max ∉ q.degrees := by
    rw [degrees, q_eq]
    decide
  have p_zero : p.coefficient 0 = 3 := coefficient_eq_of_mem (by simp [p_eq])
  have p_two : p.coefficient 2 = 1 := coefficient_eq_of_mem (by simp [p_eq])
  have q_zero : q.coefficient 0 = 1 := coefficient_eq_of_mem (by simp [q_eq])
  have q_other : ∀ d : Degree, d ≠ 0 → q.coefficient d = 0 := fun d other =>
    coefficient_eq_zero_of_notMem (by simpa [degrees, q_eq] using other)
  have above : ∀ d : Degree, p.coefficient d - q.coefficient d = 0 ∨
      ((d.toNat : ℚ) + 1) * (1 / 10 ^ 10) ≤ p.coefficient d - q.coefficient d := by
    intro d
    by_cases zero : d = 0
    · subst zero
      norm_num [p_zero, q_zero]
    · by_cases square : d = 2
      · subst square
        norm_num [p_two, q_other 2 zero, two]
      · left
        rw [q_other d zero,
          coefficient_eq_zero_of_notMem (by simp [degrees, p_eq, zero, square]), Scalar.zero_rat,
          sub_self]
  have entries : (p.difference q).terms = [(0, 2), (2, 1)] := by
    have union : degreesUnion p q = [0, 2] := by
      rw [degreesUnion, degrees, degrees, p_eq, q_eq]
      decide
    rw [terms_difference, union]
    norm_num [p_zero, p_two, q_zero, q_other 2 (by decide)]
  have clear : ∀ t ∈ (p.difference q).terms, t.2 = 0 ∨ 1 / 10 ^ 10 ≤ |t.2| := by
    rw [entries]
    norm_num [abs_of_pos]
  obtain ⟨i, r, between, computed, -, short, near, -⟩ := compute_first_order clearP clearQ noMaxP
    noMaxQ above (le_refl 0) (by norm_num : (0 : ℚ) < 2) (by norm_num : 1 ≤ 4)
  refine ⟨p, q, p_eq, q_eq, clearP, clearQ, noMaxP, noMaxQ, above, i, r, between, computed, short,
    near.trans ?_⟩
  rw [evaluate_eq_termSum clear, evaluate_eq_termSum clear, termSum, termSum, entries]
  norm_num [two]

end Report

end CurveArea
