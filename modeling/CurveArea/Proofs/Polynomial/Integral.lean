import CurveArea.Proofs.Polynomial.Exact
import Mathlib.Algebra.CharZero.Infinite
import Mathlib.Algebra.Polynomial.BigOperators
import Mathlib.Algebra.Polynomial.Roots

/-!
# When the definite integral is exact

Integration divides each coefficient by the next degree and then evaluates, which drops the
coefficients below the tolerance. So a term whose coefficient counts can still be lost, and a lost
term is an error without bound, since its power of the bounds is. The integral is exact at all
bounds if and only if no coefficient falls below the tolerance through the division.
-/

/-- Of distinct exponents one picks out its own coefficient. -/
private theorem sum_ite_eq_of_mem {e : ℕ} {c : ℚ} {terms : List (ℕ × ℚ)}
    (distinct : (terms.map (·.1)).Nodup) (member : (e, c) ∈ terms) :
    (terms.map fun t => if e = t.1 then t.2 else 0).sum = c := by
  induction terms with
  | nil => cases member
  | cons s rest ih =>
    obtain ⟨fresh, distinct⟩ := List.nodup_cons.mp distinct
    rw [List.map_cons, List.sum_cons]
    rcases List.mem_cons.mp member with rfl | later
    · have others : (rest.map fun t => if e = t.1 then t.2 else 0).sum = 0 := by
        apply List.sum_eq_zero
        intro y member
        obtain ⟨t, inside, rfl⟩ := List.mem_map.mp member
        exact if_neg fun same => fresh (List.mem_map.mpr ⟨t, inside, same.symm⟩)
      rw [if_pos rfl, others, add_zero]
    · have other : e ≠ s.1 := by
        intro same
        exact fresh (List.mem_map.mpr ⟨_, later, same⟩)
      rw [if_neg other, zero_add, ih distinct later]

open Polynomial in
/-- A sum of powers with distinct exponents vanishes everywhere only if every coefficient is zero. -/
private theorem coefficients_eq_zero_of_vanishing {terms : List (ℕ × ℚ)}
    (distinct : (terms.map (·.1)).Nodup)
    (vanishes : ∀ x : ℚ, (terms.map fun t => t.2 * x ^ t.1).sum = 0) : ∀ t ∈ terms, t.2 = 0 := by
  have zero : (terms.map fun t => (C t.2 * X ^ t.1 : ℚ[X])).sum = 0 := by
    apply Polynomial.funext
    intro x
    rw [eval_listSum, List.map_map, eval_zero, ← vanishes x]
    simp [Function.comp_def]
  rintro ⟨e, c⟩ member
  have coefficient := congrArg (fun q : ℚ[X] => q.coeff e) zero
  simp only [coeff_list_sum_map, coeff_C_mul_X_pow, coeff_zero] at coefficient
  exact (sum_ite_eq_of_mem distinct member).symm.trans coefficient

namespace CurveArea.Polynomial

/-- Where the integral is exact, the terms that integration drops add up to nothing. -/
private theorem dropped_sum {p : Polynomial ℚ} {a b : ℚ} (noMax : Degree.max ∉ p.degrees)
    (exact : p.definiteIntegral a b = .ok (p.termIntegral a b)) :
    (p.terms.map fun t => (if staysSignificant t then 0 else t.2 / (t.1.toNat + 1)) *
      (b ^ (t.1.toNat + 1) - a ^ (t.1.toNat + 1))).sum = 0 := by
  rw [definiteIntegral_rat noMax] at exact
  have same := sub_eq_zero.mpr (Except.ok.inj exact).symm
  rw [termIntegral, ← sum_map_sub] at same
  refine Eq.trans (congrArg List.sum (List.map_congr_left fun t _ => ?_)) same
  split <;> simp

/-- Below the largest degree and with no coefficient between zero and the tolerance, evaluation uses
all terms, but the definite integral is that of all terms at all bounds if and only if every
coefficient other than zero is at least the tolerance times the next degree. -/
theorem definiteIntegral_exact_iff {p : Polynomial ℚ} (noMax : Degree.max ∉ p.degrees)
    (clear : ∀ t ∈ p.terms, t.2 = 0 ∨ 1 / 10 ^ 10 ≤ |t.2|) :
    (∀ x, p.evaluate x = p.termSum x) ∧
    ((∀ a b, p.definiteIntegral a b = .ok (p.termIntegral a b)) ↔
      ∀ t ∈ p.terms, t.2 = 0 ∨ ((t.1.toNat : ℚ) + 1) * (1 / 10 ^ 10) ≤ |t.2|) := by
  refine ⟨evaluate_eq_termSum clear, ?_, definiteIntegral_eq_termIntegral noMax⟩
  intro exact t member
  -- from the lower bound 0 the dropped terms are a sum of powers of the upper bound
  let dropped := p.terms.map fun t =>
    (t.1.toNat + 1, if staysSignificant t then (0 : ℚ) else t.2 / (t.1.toNat + 1))
  have vanishes : ∀ x : ℚ, (dropped.map fun t => t.2 * x ^ t.1).sum = 0 := by
    intro x
    have sum_eq := dropped_sum noMax (exact 0 x)
    simpa [dropped, Function.comp_def] using sum_eq
  have distinct : (dropped.map (·.1)).Nodup := by
    rw [List.map_map]
    refine List.pairwise_map.mpr (p.sorted.imp fun lt => ?_)
    have := UInt32.lt_iff_toNat_lt.mp lt
    simp
    omega
  have zero := coefficients_eq_zero_of_vanishing distinct vanishes _ (List.mem_map_of_mem member)
  cases stays : staysSignificant t with
  | true => exact .inr (staysSignificant_iff.mp stays)
  | false =>
    have positive : (t.1.toNat : ℚ) + 1 ≠ 0 := by positivity
    simp only [stays, Bool.false_eq_true, if_false, div_eq_zero_iff, positive, or_false] at zero
    exact .inl zero

/-- A term that counts is lost: the line through the origin with slope `2 ^ -33` encloses 64 with the
axis up to `2 ^ 20`, but its integral is computed as 0. -/
theorem definiteIntegral_loses_term :
    ∃ p : Polynomial ℚ, p.terms = [(1, 1 / 2 ^ 33)] ∧ Degree.max ∉ p.degrees ∧
      (∀ t ∈ p.terms, t.2 = 0 ∨ 1 / 10 ^ 10 ≤ |t.2|) ∧
      p.definiteIntegral 0 (2 ^ 20) = .ok 0 ∧ p.termIntegral 0 (2 ^ 20) = 64 := by
  obtain ⟨p, terms_eq⟩ : ∃ p : Polynomial ℚ, p.terms = [(1, 1 / 2 ^ 33)] :=
    ⟨⟨[(1, 1 / 2 ^ 33)], by simp⟩, rfl⟩
  have noMax : Degree.max ∉ p.degrees := by
    rw [degrees, terms_eq]
    decide
  have dropped : staysSignificant (1, 1 / 2 ^ 33) = false := by decide +kernel
  refine ⟨p, terms_eq, noMax, ?_, ?_, ?_⟩
  · rw [terms_eq]
    norm_num [abs_of_pos]
  · rw [definiteIntegral_rat noMax, terms_eq, List.map_singleton, dropped]
    simp
  · rw [termIntegral, terms_eq, List.map_singleton, UInt32.toNat_one]
    norm_num

/-- Above the tolerance nothing is lost: the integral of `3x^2 + 1/1000` from -1 to 2. -/
theorem definiteIntegral_exact_parabola :
    ∃ p : Polynomial ℚ, p.terms = [(0, 1 / 1000), (2, 3)] ∧ Degree.max ∉ p.degrees ∧
      (∀ t ∈ p.terms, t.2 = 0 ∨ 1 / 10 ^ 10 ≤ |t.2|) ∧
      p.definiteIntegral (-1) 2 = .ok (9 + 3 / 1000) := by
  obtain ⟨p, terms_eq⟩ : ∃ p : Polynomial ℚ, p.terms = [(0, 1 / 1000), (2, 3)] :=
    ⟨⟨[(0, 1 / 1000), (2, 3)], by simp⟩, rfl⟩
  have noMax : Degree.max ∉ p.degrees := by
    rw [degrees, terms_eq]
    decide
  have clear : ∀ t ∈ p.terms, t.2 = 0 ∨ 1 / 10 ^ 10 ≤ |t.2| := by
    rw [terms_eq]
    norm_num [abs_of_pos]
  have two : (2 : Degree).toNat = 2 := rfl
  have stays : ∀ t ∈ p.terms, t.2 = 0 ∨ ((t.1.toNat : ℚ) + 1) * (1 / 10 ^ 10) ≤ |t.2| := by
    rw [terms_eq]
    norm_num [abs_of_pos, two]
  refine ⟨p, terms_eq, noMax, clear, ?_⟩
  rw [(definiteIntegral_exact_iff noMax clear).2.mpr stays, termIntegral, terms_eq]
  norm_num [two]

end CurveArea.Polynomial
