import CurveArea.Proofs.Polynomial.Entries
import Mathlib.Algebra.BigOperators.Group.Finset.Basic
import Mathlib.Algebra.BigOperators.Group.List.Lemmas
import Mathlib.Algebra.Order.Field.Basic
import Mathlib.Algebra.Order.Field.Rat
import Mathlib.Tactic.NormNum
import Mathlib.Tactic.Positivity
import Mathlib.Tactic.Ring

/-!
# Exact evaluation and integration

On rational numbers nothing is rounded, and what evaluation and integration leave out is the
negligible terms only. `termSum` and `termIntegral` leave nothing out: they are the value of all
stored terms and its integral, term by term. Here they are compared with what is computed.
-/

namespace CurveArea

namespace Scalar

@[simp] theorem zero_rat : (Scalar.zero : ℚ) = 0 := rfl

@[simp] theorem ofNat_rat (n : ℕ) : (Scalar.ofNat n : ℚ) = n := rfl

@[simp] theorem isFinite_rat (x : ℚ) : Scalar.isFinite x = true := rfl

@[simp] theorem abs_rat (x : ℚ) : Scalar.abs x = |x| := by
  change Rat.abs x = |x|
  rcases le_total 0 x with nonneg | nonpos
  · rw [Rat.abs_of_nonneg nonneg, abs_of_nonneg nonneg]
  · rw [Rat.abs_of_nonpos nonpos, abs_of_nonpos nonpos]

theorem tolerance_rat : (Scalar.tolerance : ℚ) = 1 / 10 ^ 10 := by
  change mkRat 1 (10 ^ 10) = _
  norm_num [Rat.mkRat_eq_div]

end Scalar

namespace Polynomial

theorem isNegligible_rat (c : ℚ) : isNegligible c = decide (|c| < 1 / 10 ^ 10) := by
  rw [← Scalar.tolerance_rat, ← Scalar.abs_rat]
  rfl

/-- The value of all stored terms at a point. -/
def termSum (p : Polynomial ℚ) (x : ℚ) : ℚ := (p.terms.map fun t => t.2 * x ^ t.1.toNat).sum

/-- The integral of all stored terms from `a` to `b`. -/
def termIntegral (p : Polynomial ℚ) (a b : ℚ) : ℚ :=
  (p.terms.map fun t => t.2 / (t.1.toNat + 1) * (b ^ (t.1.toNat + 1) - a ^ (t.1.toNat + 1))).sum

theorem foldl_add_eq_sum {β : Type} (f : β → ℚ) (terms : List β) (start : ℚ) :
    terms.foldl (fun sum t => sum + f t) start = start + (terms.map f).sum := by
  induction terms generalizing start with
  | nil => simp
  | cons t rest ih => rw [List.foldl_cons, ih, List.map_cons, List.sum_cons, add_assoc]

theorem evaluate_rat (p : Polynomial ℚ) (x : ℚ) :
    p.evaluate x = (p.significantTerms.map fun t => t.2 * x ^ t.1.toNat).sum :=
  (foldl_add_eq_sum (fun t : Degree × ℚ => t.2 * x ^ t.1.toNat) p.significantTerms 0).trans
    (zero_add _)

theorem sum_map_sub {β : Type} (f g : β → ℚ) (terms : List β) :
    (terms.map fun t => f t - g t).sum = (terms.map f).sum - (terms.map g).sum := by
  rw [eq_sub_iff_add_eq, ← List.sum_map_add]
  simp

/-- Leaving terms out of a sum is counting them as zero. -/
theorem sum_map_filter {β : Type} (keep : β → Bool) (f : β → ℚ) (terms : List β) :
    ((terms.filter keep).map f).sum = (terms.map fun t => if keep t then f t else 0).sum := by
  induction terms with
  | nil => rfl
  | cons t rest ih =>
    cases kept : keep t with
    | true => simp [kept, ih]
    | false => simp [kept, ih]

/-- Where every coefficient is zero or counts, evaluation uses all terms. -/
theorem evaluate_eq_termSum {p : Polynomial ℚ}
    (clear : ∀ t ∈ p.terms, t.2 = 0 ∨ 1 / 10 ^ 10 ≤ |t.2|) (x : ℚ) :
    p.evaluate x = p.termSum x := by
  rw [evaluate_rat, significantTerms, sum_map_filter, termSum]
  apply congrArg List.sum
  apply List.map_congr_left
  intro t member
  rcases clear t member with zero | counts
  · simp [zero]
  · have significant : isNegligible t.2 = false := by
      rw [isNegligible_rat, decide_eq_false (not_lt.mpr counts)]
    simp [significant]

/-- Whether the coefficient of a term still counts after the division by the next degree, so that
the integral of the term is not left out. -/
def staysSignificant (t : Degree × ℚ) : Bool := !isNegligible (t.2 / ((t.1.toNat : ℚ) + 1))

theorem staysSignificant_iff {t : Degree × ℚ} :
    staysSignificant t = true ↔ ((t.1.toNat : ℚ) + 1) * (1 / 10 ^ 10) ≤ |t.2| := by
  have positive : (0 : ℚ) < (t.1.toNat : ℚ) + 1 := by positivity
  rw [staysSignificant, isNegligible_rat, Bool.not_eq_true', decide_eq_false_iff_not, not_lt,
    abs_div, abs_of_pos positive, le_div_iff₀ positive, mul_comm]

/-- The definite integral is that of the terms whose coefficients stay significant. -/
theorem definiteIntegral_rat {p : Polynomial ℚ} (noMax : Degree.max ∉ p.degrees) (a b : ℚ) :
    p.definiteIntegral a b = .ok (p.terms.map fun t =>
      (if staysSignificant t then t.2 / (t.1.toNat + 1) else 0) *
        (b ^ (t.1.toNat + 1) - a ^ (t.1.toNat + 1))).sum := by
  obtain ⟨integral, found, terms_eq⟩ := exists_antiderivative noMax
  have value : ∀ x : ℚ, integral.evaluate x = (p.terms.map fun t =>
      (if staysSignificant t then t.2 / (t.1.toNat + 1) else 0) * x ^ (t.1.toNat + 1)).sum := by
    intro x
    rw [evaluate_rat, significantTerms, sum_map_filter, terms_eq, List.map_map]
    apply congrArg List.sum
    apply List.map_congr_left
    intro t member
    have next : (t.1 + 1).toNat = t.1.toNat + 1 :=
      toNat_succ fun same => noMax (same ▸ List.mem_map_of_mem member)
    cases negligible : isNegligible (t.2 / ((t.1.toNat : ℚ) + 1)) <;>
      simp [next, staysSignificant, negligible]
  rw [definiteIntegral, found]
  change Except.ok (integral.evaluate b - integral.evaluate a) = _
  rw [value, value, ← sum_map_sub]
  simp only [mul_sub]

/-- Where every coefficient is zero or stays significant, nothing is left out of the integral. -/
theorem definiteIntegral_eq_termIntegral {p : Polynomial ℚ} (noMax : Degree.max ∉ p.degrees)
    (stays : ∀ t ∈ p.terms, t.2 = 0 ∨ ((t.1.toNat : ℚ) + 1) * (1 / 10 ^ 10) ≤ |t.2|) (a b : ℚ) :
    p.definiteIntegral a b = .ok (p.termIntegral a b) := by
  rw [definiteIntegral_rat noMax, termIntegral]
  apply congrArg Except.ok
  apply congrArg List.sum
  apply List.map_congr_left
  intro t member
  rcases stays t member with zero | counts
  · simp [zero]
  · rw [if_pos (staysSignificant_iff.mpr counts)]

/-- A coefficient that stays significant counts. -/
theorem clear_of_stays {p : Polynomial ℚ}
    (stays : ∀ t ∈ p.terms, t.2 = 0 ∨ ((t.1.toNat : ℚ) + 1) * (1 / 10 ^ 10) ≤ |t.2|) :
    ∀ t ∈ p.terms, t.2 = 0 ∨ 1 / 10 ^ 10 ≤ |t.2| := by
  intro t member
  refine (stays t member).imp_right fun counts => le_trans ?_ counts
  exact le_mul_of_one_le_left (by positivity) (le_add_of_nonneg_left t.1.toNat.cast_nonneg)

/-- A sum over the terms is a sum over any degrees that hold the stored ones. -/
theorem sum_terms_eq_sum (p : Polynomial ℚ) (weight : Degree → ℚ) (degrees : Finset Degree)
    (inside : ∀ d ∈ p.degrees, d ∈ degrees) :
    (p.terms.map fun t => t.2 * weight t.1).sum = ∑ d ∈ degrees, p.coefficient d * weight d := by
  have distinct : p.degrees.Nodup := p.sorted_degrees.imp fun lt => UInt32.ne_of_lt lt
  have stored : (p.terms.map fun t => t.2 * weight t.1) =
      p.degrees.map fun d => p.coefficient d * weight d := by
    rw [Polynomial.degrees, List.map_map]
    apply List.map_congr_left
    intro t member
    rw [Function.comp_apply, coefficient_eq_of_mem member]
  rw [stored, ← List.sum_toFinset _ distinct]
  refine Finset.sum_subset (fun d member => inside d (List.mem_toFinset.mp member)) ?_
  intro d _ absent
  rw [coefficient_eq_zero_of_notMem fun member => absent (List.mem_toFinset.mpr member),
    Scalar.zero_rat, zero_mul]

/-- Adding to an entry adds to any sum over the terms, whether the entry is new or not. -/
theorem sum_addEntry (weight : Degree → ℚ) (d : Degree) (c : ℚ) (terms : List (Degree × ℚ)) :
    ((addEntry d c terms).map fun t => t.2 * weight t.1).sum =
      (terms.map fun t => t.2 * weight t.1).sum + c * weight d := by
  induction terms with
  | nil => simp [addEntry]
  | cons t rest ih =>
    rw [addEntry]
    split
    · simp [add_comm]
    · split
      · next same =>
        simp only [List.map_cons, List.sum_cons, same]
        ring
      · simp only [List.map_cons, List.sum_cons, ih, add_assoc]

/-- Gathering terms by their degrees leaves any sum over them as it is. -/
theorem sum_terms_ofTerms (weight : Degree → ℚ) (added : List (Degree × ℚ)) :
    ((ofTerms added).terms.map fun t => t.2 * weight t.1).sum =
      (added.map fun t => t.2 * weight t.1).sum := by
  suffices run : ∀ p : Polynomial ℚ,
      ((added.foldl (fun p term => p.addTerm term.1 term.2) p).terms.map
          fun t => t.2 * weight t.1).sum =
        (p.terms.map fun t => t.2 * weight t.1).sum +
          (added.map fun t => t.2 * weight t.1).sum from
    (run zero).trans (zero_add _)
  induction added with
  | nil => simp
  | cons t rest ih =>
    intro p
    rw [List.foldl_cons, ih, addTerm, sum_addEntry, List.map_cons, List.sum_cons, add_assoc]

/-- Any sum over the terms of a difference is the difference of the two sums. -/
theorem sum_terms_difference (p q : Polynomial ℚ) (weight : Degree → ℚ) :
    ((p.difference q).terms.map fun t => t.2 * weight t.1).sum =
      (p.terms.map fun t => t.2 * weight t.1).sum -
        (q.terms.map fun t => t.2 * weight t.1).sum := by
  have distinct : (degreesUnion p q).Nodup :=
    (sorted_degreesUnion p q).imp fun lt => UInt32.ne_of_lt lt
  rw [sum_terms_eq_sum p weight (degreesUnion p q).toFinset fun d member =>
      List.mem_toFinset.mpr (mem_degreesUnion.mpr (.inl member)),
    sum_terms_eq_sum q weight (degreesUnion p q).toFinset fun d member =>
      List.mem_toFinset.mpr (mem_degreesUnion.mpr (.inr member)),
    ← Finset.sum_sub_distrib, List.sum_toFinset _ distinct, terms_difference, List.map_map]
  apply congrArg List.sum
  apply List.map_congr_left
  intro d _
  simp [sub_mul]

/-- An entry of a difference is the difference of the coefficients. -/
theorem snd_of_mem_difference {p q : Polynomial ℚ} {t : Degree × ℚ}
    (member : t ∈ (p.difference q).terms) : t.2 = p.coefficient t.1 - q.coefficient t.1 := by
  rw [terms_difference] at member
  obtain ⟨d, -, rfl⟩ := List.mem_map.mp member
  simp

theorem noMax_difference {p q : Polynomial ℚ} (noMaxP : Degree.max ∉ p.degrees)
    (noMaxQ : Degree.max ∉ q.degrees) : Degree.max ∉ (p.difference q).degrees :=
  mt mem_degrees_difference.mp (not_or_intro noMaxP noMaxQ)

theorem termSum_difference (p q : Polynomial ℚ) (x : ℚ) :
    (p.difference q).termSum x = p.termSum x - q.termSum x :=
  sum_terms_difference p q fun d => x ^ d.toNat

/-- The integral with its coefficients in front. -/
theorem termIntegral_eq (p : Polynomial ℚ) (a b : ℚ) :
    p.termIntegral a b = (p.terms.map fun t =>
      t.2 * ((b ^ (t.1.toNat + 1) - a ^ (t.1.toNat + 1)) / (t.1.toNat + 1))).sum := by
  apply congrArg List.sum
  apply List.map_congr_left
  intro t _
  rw [div_mul_eq_mul_div, mul_div_assoc]

theorem termIntegral_difference (p q : Polynomial ℚ) (a b : ℚ) :
    (p.difference q).termIntegral a b = p.termIntegral a b - q.termIntegral a b := by
  simp only [termIntegral_eq]
  exact sum_terms_difference p q fun d => (b ^ (d.toNat + 1) - a ^ (d.toNat + 1)) / (d.toNat + 1)

end Polynomial

end CurveArea
