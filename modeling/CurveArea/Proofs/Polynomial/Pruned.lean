import CurveArea.Proofs.Polynomial.Overflow
import CurveArea.Riemann
import CurveArea.Samples
import Mathlib.Data.List.TFAE

/-!
# What is seen of a polynomial

Values, texts, the degree, the zero test, Riemann sums, rectangles and samples each go through the
stored terms on their own: forwards, backwards, as a filter, as a search or as a test of all terms.
What each of them sees is the list of the terms that count, so none of them tells a polynomial from
the pruned one, whatever the coefficients are, and all of them agree on what is zero.
-/

namespace CurveArea

namespace Polynomial

section Counting

variable {α : Type} [Scalar α] {p p' : Polynomial α}

/-- The search for the highest degree stops at the last term that counts. -/
theorem degree?_eq_head? (p : Polynomial α) :
    p.degree? = p.significantTerms.reverse.head?.map (·.1) := by
  rw [degree?, significantTerms, ← List.filter_reverse, List.head?_filter]

theorem isZero_iff : p.isZero = true ↔ p.significantTerms = [] := by
  rw [isZero, significantTerms, List.all_eq_true, List.filter_eq_nil_iff]
  simp only [Bool.not_eq_true', Bool.not_eq_false]

theorem degree?_eq_none_iff : p.degree? = none ↔ p.significantTerms = [] := by
  rw [degree?_eq_head?, Option.map_eq_none_iff, List.head?_eq_none_iff, List.reverse_eq_nil_iff]

/-- The degree is that of a stored coefficient that counts, and no greater one counts. -/
theorem degree?_eq_some {d : Degree} (h : p.degree? = some d) :
    d ∈ p.degrees ∧ isNegligible (p.coefficient d) = false ∧
      ∀ e ∈ p.degrees, isNegligible (p.coefficient e) = false → e ≤ d := by
  rw [degree?_eq_head?] at h
  obtain ⟨first, head, rfl⟩ := Option.map_eq_some_iff.mp h
  obtain ⟨later, split⟩ := List.head?_eq_some_iff.mp head
  have stored : first ∈ p.terms ∧ isNegligible first.2 = false := by
    have member : first ∈ p.significantTerms.reverse := by simp [split]
    simpa [significantTerms] using member
  refine ⟨List.mem_map_of_mem stored.1, ?_, ?_⟩
  · rw [coefficient_eq_of_mem stored.1]
    exact stored.2
  · intro e member counts
    obtain ⟨t, inside, rfl⟩ := List.mem_map.mp member
    rw [coefficient_eq_of_mem inside] at counts
    have seen : t ∈ p.significantTerms.reverse := by simp [significantTerms, inside, counts]
    have descending : (first :: later).Pairwise fun s t => t.1 < s.1 := by
      rw [← split]
      exact List.pairwise_reverse.mpr p.pruned.sorted
    rw [split] at seen
    rcases List.mem_cons.mp seen with rfl | behind
    · exact UInt32.le_refl _
    · exact UInt32.le_of_lt ((List.pairwise_cons.mp descending).1 t behind)

theorem evaluate_congr (same : p.significantTerms = p'.significantTerms) (x : α) :
    p.evaluate x = p'.evaluate x := by
  rw [evaluate, evaluate, same]

end Counting

/-- What is seen of a polynomial by itself is seen of another one. -/
structure LooksLike (p p' : Polynomial Float) : Prop where
  evaluate_eq : ∀ x, p.evaluate x = p'.evaluate x
  format_eq : p.format = p'.format
  degree?_eq : p.degree? = p'.degree?
  isZero_eq : p.isZero = p'.isZero
  points_eq : ∀ i samples, Samples.points p i samples = Samples.points p' i samples

/-- What is seen of two curves together is seen of two others: the results of the Riemann sum, the
failures included, the rectangles and the table of samples. -/
structure CurvesLookAlike (p q p' q' : Polynomial Float) : Prop where
  leftSum_eq : ∀ a b n, Riemann.leftSumBetween p q a b n = Riemann.leftSumBetween p' q' a b n
  rectangles_eq : ∀ i n, Riemann.rectangles p q i n = Riemann.rectangles p' q' i n
  csvRows_eq : ∀ i samples, Samples.csvRows p q i samples = Samples.csvRows p' q' i samples

variable {p q p' q' : Polynomial Float}

/-- Nothing that counts is lost by pruning. -/
theorem significantTerms_pruned (p : Polynomial Float) :
    p.pruned.significantTerms = p.significantTerms :=
  congrArg terms pruned_pruned

theorem looksLike_of_significantTerms_eq (same : p.significantTerms = p'.significantTerms) :
    LooksLike p p' where
  evaluate_eq := evaluate_congr same
  format_eq := by rw [format, format, formatChars, formatChars, same]
  degree?_eq := by rw [degree?_eq_head?, degree?_eq_head?, same]
  isZero_eq := by rw [Bool.eq_iff_iff, isZero_iff, isZero_iff, same]
  points_eq := by
    intro i samples
    unfold Samples.points
    simp only [evaluate_congr same]

/-- Two curves are seen through their values only. -/
theorem curvesLookAlike_of_evaluate_eq (values : ∀ x, p.evaluate x = p'.evaluate x)
    (values' : ∀ x, q.evaluate x = q'.evaluate x) : CurvesLookAlike p q p' q' where
  leftSum_eq := by
    intro a b n
    unfold Riemann.leftSumBetween Riemann.leftSum
    simp only [values, values']
  rectangles_eq := by
    intro i n
    unfold Riemann.rectangles
    simp only [values, values']
  csvRows_eq := by
    intro i samples
    unfold Samples.csvRows
    simp only [values, values']

theorem format_of_significantTerms_eq_nil (none : p.significantTerms = []) : p.format = "0" := by
  rw [format, formatChars, none]
  rfl

/-- A polynomial that is written as a zero has no term that counts: the zero that is read back is
what pruning leaves of it. -/
theorem significantTerms_eq_nil_of_format (zero : p.format = "0") : p.significantTerms = [] := by
  obtain ⟨q, read, vanishes⟩ := parse_zero_text
  rw [← zero] at read
  obtain ⟨q', again, same, -⟩ := exists_parse_format (isFinite_of_parse_format read)
  obtain rfl : q' = q := Except.ok.inj (again.symm.trans read)
  rw [same] at vanishes
  exact vanishes

/-- All tests for zero agree. -/
theorem zero_tfae (p : Polynomial Float) :
    List.TFAE [p.isZero = true, p.degree? = none, p.pruned.terms = [], p.format = "0"] := by
  tfae_have 1 ↔ 3 := isZero_iff
  tfae_have 2 ↔ 3 := degree?_eq_none_iff
  tfae_have 3 → 4 := format_of_significantTerms_eq_nil
  tfae_have 4 → 3 := significantTerms_eq_nil_of_format
  tfae_finish

/-- The term that is written first is the one of the degree. -/
theorem exists_first_term (counts : p.isZero = false) :
    ∃ d later, p.degree? = some d ∧ p.significantTerms.reverse = (d, p.coefficient d) :: later ∧
      p.format.toList =
        termChars d (p.coefficient d) ++ later.flatMap fun t => laterTermChars t.1 t.2 := by
  cases terms : p.significantTerms.reverse with
  | nil =>
    have zero : p.isZero = true := isZero_iff.mpr (List.reverse_eq_nil_iff.mp terms)
    rw [zero] at counts
    cases counts
  | cons first later =>
    have stored : first ∈ p.terms := by
      have member : first ∈ p.significantTerms.reverse := by simp [terms]
      exact (List.mem_filter.mp (List.mem_reverse.mp member)).1
    refine ⟨first.1, later, ?_, ?_, ?_⟩
    · rw [degree?_eq_head?, terms]
      rfl
    · rw [coefficient_eq_of_mem stored]
    · rw [format, String.toList_ofList, formatChars, terms, coefficient_eq_of_mem stored]

/-- Nothing that is seen of two polynomials changes when their negligible terms are dropped, and
dropping them again changes nothing. All tests for zero agree, and the degree of a polynomial that
is not zero is the degree of the term that is written first, the greatest one with a stored
coefficient that counts. -/
theorem pruned_unseen (p q : Polynomial Float) :
    p.LooksLike p.pruned ∧ CurvesLookAlike p q p.pruned q.pruned ∧ p.pruned.pruned = p.pruned ∧
    List.TFAE [p.isZero = true, p.degree? = none, p.pruned.terms = [], p.format = "0"] ∧
    (p.isZero = false → ∃ d later, p.degree? = some d ∧
      p.significantTerms.reverse = (d, p.coefficient d) :: later ∧
      p.format.toList =
        termChars d (p.coefficient d) ++ later.flatMap (fun t => laterTermChars t.1 t.2) ∧
      d ∈ p.degrees ∧ isNegligible (p.coefficient d) = false ∧
      ∀ e ∈ p.degrees, isNegligible (p.coefficient e) = false → e ≤ d) := by
  have alike := looksLike_of_significantTerms_eq p.significantTerms_pruned.symm
  have alike' := looksLike_of_significantTerms_eq q.significantTerms_pruned.symm
  refine ⟨alike, curvesLookAlike_of_evaluate_eq alike.evaluate_eq alike'.evaluate_eq, pruned_pruned,
    zero_tfae p, fun counts => ?_⟩
  obtain ⟨d, later, degree, first, text⟩ := exists_first_term counts
  exact ⟨d, later, degree, first, text, degree?_eq_some degree⟩

/-- A coefficient that is no number counts, one at the tolerance counts too, and one below it in
front of both is not written. -/
theorem pruned_unseen_nan :
    ∃ p : Polynomial Float, p.terms = [(0, 1e-10), (1, Float.nan), (2, 9e-11)] ∧
      p.isZero = false ∧ p.degree? = some 1 ∧
      (∀ e ∈ p.degrees, isNegligible (p.coefficient e) = false → e ≤ 1) ∧
      p.format = "NaNx + 0.0000000001" ∧ p.pruned.format = "NaNx + 0.0000000001" := by
  let p : Polynomial Float := ⟨[(0, 1e-10), (1, Float.nan), (2, 9e-11)], by decide⟩
  have counts : p.isZero = false := by decide +kernel
  have one : p.degree? = some 1 := by decide +kernel
  have text : p.format = "NaNx + 0.0000000001" := by decide +kernel
  obtain ⟨alike, -, -, -, first⟩ := pruned_unseen p p
  obtain ⟨d, later, degree, -, -, -, -, greatest⟩ := first counts
  obtain rfl : d = 1 := Option.some.inj (degree.symm.trans one)
  exact ⟨p, rfl, counts, one, greatest, text, alike.format_eq ▸ text⟩

end Polynomial

end CurveArea
