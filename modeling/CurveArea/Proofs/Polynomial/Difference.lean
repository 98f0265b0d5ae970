import CurveArea.Proofs.Polynomial.Built
import CurveArea.Proofs.Polynomial.Text
import CurveArea.Proofs.Report.Exchange

/-!
# The difference at every degree

The difference is rebuilt from the union of the stored degrees, and each of them is entered once. So
at every degree, stored or not, its coefficient is the difference of the two coefficients, rounded;
that this is added to the zero of a new entry shows nowhere, because no difference from a stored
coefficient is a negative zero. The signs of the zeros are also all that distinguishes the
difference taken the other way round from the opposite of this one.
-/

namespace CurveArea.Polynomial

section Coefficients

variable {p q : Polynomial Float}

/-- At every degree the difference of the coefficients is added to zero. -/
theorem coefficient_difference_eq_zero_add (p q : Polynomial Float) (d : Degree) :
    (p.difference q).coefficient d = 0.0 + (p.coefficient d - q.coefficient d) := by
  by_cases stored : d ∈ degreesUnion p q
  · apply coefficient_eq_of_mem
    rw [terms_difference]
    exact List.mem_map_of_mem stored
  · obtain ⟨absentP, absentQ⟩ := not_or.mp (mt mem_degreesUnion.mpr stored)
    rw [← degrees_difference] at stored
    rw [coefficient_eq_zero_of_notMem absentP, coefficient_eq_zero_of_notMem absentQ,
      coefficient_eq_zero_of_notMem stored]
    rfl

/-- No coefficient is a negative zero, whether its degree is stored or not. -/
theorem Built.coefficient_ne_neg_zero (h : Built p) (d : Degree) : p.coefficient d ≠ -0.0 := by
  by_cases stored : d ∈ p.degrees
  · obtain ⟨t, member, rfl⟩ := List.mem_map.mp stored
    rw [coefficient_eq_of_mem member]
    exact h.noNegZero t member
  · rw [coefficient_eq_zero_of_notMem stored]
    have other : (0.0 : Float) ≠ -0.0 := by decide +kernel
    exact other

theorem Built.coefficient_difference (h : Built p) (q : Polynomial Float) (d : Degree) :
    (p.difference q).coefficient d = p.coefficient d - q.coefficient d := by
  rw [coefficient_difference_eq_zero_add]
  exact Binary64.zero_add_of_ne (Binary64.sub_ne_neg_zero (h.coefficient_ne_neg_zero d) _)

theorem isFinite_coefficient (finite : ∀ t ∈ p.terms, t.2.isFinite = true) (d : Degree) :
    (p.coefficient d).isFinite = true := by
  by_cases stored : d ∈ p.degrees
  · obtain ⟨t, member, rfl⟩ := List.mem_map.mp stored
    rw [coefficient_eq_of_mem member]
    exact finite t member
  · rw [coefficient_eq_zero_of_notMem stored]
    rfl

/-- The other way round every coefficient is the opposite one, if it is a number at all. -/
theorem coefficient_difference_beq_neg (finiteP : ∀ t ∈ p.terms, t.2.isFinite = true)
    (finiteQ : ∀ t ∈ q.terms, t.2.isFinite = true) (d : Degree) :
    ((q.difference p).coefficient d == -(p.difference q).coefficient d) = true := by
  rw [coefficient_difference_eq_zero_add, coefficient_difference_eq_zero_add]
  apply (Binary64.mirrored_zero.add (Binary64.mirrored_sub _ _)).beq_neg
  have number : q.coefficient d - p.coefficient d ≠ Float.nan :=
    Binary64.sub_ne_nan_of_isFinite (isFinite_coefficient finiteQ d)
      (isFinite_coefficient finiteP d)
  by_cases zero : q.coefficient d - p.coefficient d = -0.0
  · rw [zero]
    exact nofun
  · rwa [Binary64.zero_add_of_ne zero]

/-- What cancels stays stored with the coefficient zero. -/
theorem terms_difference_self (finite : ∀ t ∈ p.terms, t.2.isFinite = true) :
    (p.difference p).terms = p.degrees.map fun d => (d, 0.0) := by
  have degrees : (p.difference p).degrees = p.degrees := by
    refine List.Pairwise.eq_of_mem_iff (sorted_degrees _) p.sorted_degrees fun d => ?_
    rw [mem_degrees_difference, or_self]
  rw [terms_eq_map_degrees, degrees]
  refine List.map_congr_left fun d _ => ?_
  rw [coefficient_difference_eq_zero_add,
    Binary64.sub_self_of_isFinite (isFinite_coefficient finite d)]
  rfl

theorem Built.difference_zero (h : Built p) : p.difference Polynomial.zero = p := by
  apply eq_of_coefficient_eq
  · intro d
    rw [mem_degrees_difference]
    exact or_iff_left List.not_mem_nil
  · intro d
    rw [h.coefficient_difference]
    exact Binary64.sub_zero _

end Coefficients

/-- The difference stores the degrees of both polynomials, and its coefficient at every degree is
the difference of theirs. With finite coefficients, the difference the other way round has the
opposite coefficients, that of a polynomial from itself stores its degrees with a positive zero
each, and that from no terms at all is the polynomial itself. -/
theorem difference_coefficientwise {p : Polynomial Float} (h : Built p)
    (q : Polynomial Float) :
    (∀ d, d ∈ (p.difference q).degrees ↔ d ∈ p.degrees ∨ d ∈ q.degrees) ∧
    (∀ d, (p.difference q).coefficient d = p.coefficient d - q.coefficient d) ∧
    ((∀ t ∈ p.terms ++ q.terms, t.2.isFinite = true) →
      (q.difference p).degrees = (p.difference q).degrees ∧
      (∀ d, ((q.difference p).coefficient d == -(p.difference q).coefficient d) = true) ∧
      (p.difference p).terms = p.degrees.map (fun d => (d, 0.0)) ∧
      p.difference zero = p ∧ (p.difference zero == p) = true) := by
  refine ⟨fun d => mem_degrees_difference, h.coefficient_difference q, fun finite => ?_⟩
  obtain ⟨finiteP, finiteQ⟩ := List.forall_mem_append.mp finite
  refine ⟨?_, coefficient_difference_beq_neg finiteP finiteQ, terms_difference_self finiteP,
    h.difference_zero, ?_⟩
  · rw [degrees_difference, degrees_difference, degreesUnion_comm]
  · rw [h.difference_zero]
    exact beq_self_of_isFinite finiteP

/-- A parabola less a line: the linear terms cancel and stay stored, and the constant changes its
sign in the other direction. -/
theorem difference_coefficientwise_cancelled :
    let p : Polynomial Float := ofTerms [(2, 0.1), (1, 2.0)]
    let q : Polynomial Float := ofTerms [(1, 2.0), (0, 5.0)]
    Built p ∧ (∀ t ∈ p.terms ++ q.terms, t.2.isFinite = true) ∧
      (p.difference q).terms = [(0, -5.0), (1, 0.0), (2, 0.1)] ∧
      (∀ d, ((q.difference p).coefficient d == -(p.difference q).coefficient d) = true) ∧
      (p.difference p).terms = [(1, 0.0), (2, 0.0)] ∧ p.difference zero = p := by
  intro p q
  have built : Built p := .ofTerms _
  have finite : ∀ t ∈ p.terms ++ q.terms, t.2.isFinite = true := by decide +kernel
  obtain ⟨-, -, algebra⟩ := difference_coefficientwise built q
  obtain ⟨-, opposite, cancelled, unchanged, -⟩ := algebra finite
  have terms : (p.difference q).terms = [(0, -5.0), (1, 0.0), (2, 0.1)] := by decide +kernel
  have degrees : p.degrees = [1, 2] := by decide
  rw [degrees] at cancelled
  exact ⟨built, finite, terms, opposite, cancelled, unchanged⟩

end CurveArea.Polynomial
