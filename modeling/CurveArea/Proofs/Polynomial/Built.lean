import CurveArea.Polynomial.Text
import CurveArea.Proofs.Binary64.Sums
import CurveArea.Proofs.Polynomial.Entries

/-!
# What building a polynomial keeps

However a polynomial is built, its terms are listed by increasing degree, and none of the stored
coefficients is a negative zero: every entry starts from the positive zero, and a sum is a negative
zero only if both of its sides are. So a coefficient of zero shows one sign only, be it given with
the other one, be it left by a cancellation or by a quotient that vanishes.
-/

namespace CurveArea.Polynomial

/-- The polynomials that any number of operations gives, from any numbers and texts. -/
inductive Built : Polynomial Float → Prop
  | zero : Built zero
  | constant (value : Float) : Built (constant value)
  | ofTerms (terms : List (Degree × Float)) : Built (ofTerms terms)
  | addTerm {p : Polynomial Float} (degree : Degree) (coefficient : Float) :
      Built p → Built (p.addTerm degree coefficient)
  | parse {p : Polynomial Float} {text : String} : parse text = .ok p → Built p
  | difference {p q : Polynomial Float} : Built p → Built q → Built (p.difference q)
  | antiderivative {p q : Polynomial Float} : Built p → p.antiderivative = .ok q → Built q
  | pruned {p : Polynomial Float} : Built p → Built p.pruned

/-- What every list of stored terms keeps. -/
structure WellStored (p : Polynomial Float) : Prop where
  increasing : p.degrees.Pairwise (· < ·)
  /-- No degree is listed twice. -/
  once : p.degrees.Nodup
  /-- Each entry that is counted is listed, with the coefficient of its degree. -/
  listed : p.terms = p.degrees.map fun d => (d, p.coefficient d)
  size_eq : p.size = p.degrees.length
  ne_neg_zero : ∀ t ∈ p.terms, t.2 ≠ -0.0

/-- No stored coefficient is a negative zero. -/
def NoNegZero (terms : List (Degree × Float)) : Prop := ∀ t ∈ terms, t.2 ≠ -0.0

theorem zero_add_ne_neg_zero (c : Float) : 0.0 + c ≠ -0.0 := by
  intro vanishes
  have zero : (0.0 : Float) = -0.0 := (Binary64.eq_neg_zero_of_add vanishes).1
  have other : (0.0 : Float) ≠ -0.0 := by decide +kernel
  exact other zero

/-- The entry that an addition changes is a sum that starts from what was stored, or from zero. -/
theorem noNegZero_addEntry {terms : List (Degree × Float)} (d : Degree) (c : Float)
    (h : NoNegZero terms) : NoNegZero (addEntry d c terms) := by
  have new : (d, Scalar.zero + c).2 ≠ -0.0 := zero_add_ne_neg_zero c
  induction terms with
  | nil => exact List.forall_mem_singleton.mpr new
  | cons t rest ih =>
    obtain ⟨e, b⟩ := t
    obtain ⟨head, tail⟩ := List.forall_mem_cons.mp h
    rw [addEntry]
    split
    · exact List.forall_mem_cons.mpr ⟨new, h⟩
    · split
      · refine List.forall_mem_cons.mpr ⟨?_, tail⟩
        intro vanishes
        exact head (Binary64.eq_neg_zero_of_add vanishes).1
      · exact List.forall_mem_cons.mpr ⟨head, ih tail⟩

theorem noNegZero_ofTerms (added : List (Degree × Float)) : NoNegZero (ofTerms added).terms := by
  refine List.foldlRecOn (motive := fun p : Polynomial Float => NoNegZero p.terms) added _ ?_ ?_
  · exact nofun
  · intro p kept t _
    exact noNegZero_addEntry t.1 t.2 kept

theorem noNegZero_antiderivative {p q : Polynomial Float} (h : p.antiderivative = .ok q) :
    NoNegZero q.terms := by
  have noMax : Degree.max ∉ p.degrees := by
    intro hasMax
    rw [antiderivative_of_max_mem hasMax] at h
    cases h
  obtain ⟨integral, found, terms⟩ := exists_antiderivative noMax
  obtain rfl : integral = q := Except.ok.inj (found.symm.trans h)
  intro t member
  rw [terms] at member
  obtain ⟨s, -, rfl⟩ := List.mem_map.mp member
  exact zero_add_ne_neg_zero _

theorem Built.noNegZero {p : Polynomial Float} (h : Built p) : NoNegZero p.terms := by
  induction h with
  | zero => exact nofun
  | constant value => exact noNegZero_addEntry 0 value nofun
  | ofTerms terms => exact noNegZero_ofTerms terms
  | addTerm degree coefficient _ ih => exact noNegZero_addEntry degree coefficient ih
  | @parse p text read =>
    rw [Polynomial.parse] at read
    split at read
    · obtain rfl := Except.ok.inj read
      exact noNegZero_ofTerms _
    · cases read
  | difference _ _ _ _ => exact noNegZero_ofTerms _
  | antiderivative _ integrated _ => exact noNegZero_antiderivative integrated
  | pruned _ ih => exact fun t member => ih t (List.mem_filter.mp member).1

/-- However a polynomial is built, its terms are stored well. -/
theorem Built.wellStored {p : Polynomial Float} (h : Built p) : p.WellStored where
  increasing := p.sorted_degrees
  once := p.sorted_degrees.imp UInt32.ne_of_lt
  listed := p.terms_eq_map_degrees
  size_eq := (List.length_map _).symm
  ne_neg_zero := h.noNegZero

/-- A negative zero that is given, and a quotient so small that it is rounded to one. -/
theorem Built.wellStored_vanishing :
    ∃ p : Polynomial Float, Built p ∧ p.terms = [(1, 0.0), (2, 0.0)] ∧ p.WellStored := by
  let p : Polynomial Float := (Polynomial.constant (-0.0)).addTerm 1 (-5e-324)
  have built : Built p := .addTerm 1 (-5e-324) (.constant (-0.0))
  have run : p.antiderivative.map (·.terms) = .ok [(1, 0.0), (2, 0.0)] := by decide +kernel
  cases integrated : p.antiderivative with
  | error e =>
    rw [integrated] at run
    cases run
  | ok q =>
    rw [integrated] at run
    have result : Built q := .antiderivative built integrated
    exact ⟨q, result, Except.ok.inj run, result.wellStored⟩

end CurveArea.Polynomial
