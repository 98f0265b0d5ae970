import CurveArea.Proofs.Polynomial.Entries

/-!
# Accumulation

A list of terms becomes a polynomial one term after another. Each term touches the entry of its own
degree and no other, and it is added to what stands there, never put in its place. So the entry of a
degree depends on the terms of that degree alone, on their order too since every addition is
rounded, but not on what stands between them.
-/

namespace CurveArea.Polynomial

/-- The coefficients that a list of terms has for one degree, in their order. -/
def coefficientsAt {α : Type} (d : Degree) (terms : List (Degree × α)) : List α :=
  (terms.filter (·.1 = d)).map (·.2)

theorem mem_coefficientsAt {α : Type} {terms : List (Degree × α)} {d : Degree} {c : α} :
    c ∈ coefficientsAt d terms ↔ (d, c) ∈ terms := by
  simp [coefficientsAt]

section Coefficients

variable {α : Type} [Scalar α] {terms other : List (Degree × α)}

theorem coefficient_ofTerms_eq_foldl (terms : List (Degree × α)) (d : Degree) :
    (ofTerms terms).coefficient d = (coefficientsAt d terms).foldl (· + ·) Scalar.zero := by
  rw [coefficient_ofTerms, coefficientsAt, List.foldl_map]

/-- Terms that agree degree by degree make the same polynomial, however the degrees are mixed. -/
theorem ofTerms_eq_of_coefficientsAt_eq
    (agree : ∀ d, coefficientsAt d terms = coefficientsAt d other) :
    ofTerms terms = ofTerms other := by
  apply eq_of_coefficient_eq
  · intro d
    rw [mem_degrees_ofTerms, mem_degrees_ofTerms]
    simp only [← mem_coefficientsAt, agree]
  · intro d
    rw [coefficient_ofTerms_eq_foldl, coefficient_ofTerms_eq_foldl, agree]

end Coefficients

/-- A polynomial made from terms stores exactly their degrees, and each coefficient is the sum of
those given for its degree, added from zero in their order. Terms that agree degree by degree make
the same polynomial, and terms that come behind others are added to what these have made. -/
theorem ofTerms_accumulates (terms : List (Degree × Float)) :
    (∀ d, (d ∈ (ofTerms terms).degrees ↔ ∃ c, (d, c) ∈ terms) ∧
      (ofTerms terms).coefficient d = (coefficientsAt d terms).foldl (· + ·) 0.0) ∧
    (∀ other, (∀ d, coefficientsAt d terms = coefficientsAt d other) →
      ofTerms terms = ofTerms other) ∧
    ∀ more, ofTerms (terms ++ more) =
      more.foldl (fun p term => p.addTerm term.1 term.2) (ofTerms terms) := by
  refine ⟨fun d => ⟨mem_degrees_ofTerms, coefficient_ofTerms_eq_foldl terms d⟩, ?_, ?_⟩
  · intro other agree
    exact ofTerms_eq_of_coefficientsAt_eq agree
  · intro more
    rw [ofTerms, List.foldl_append, ← ofTerms]

/-- The same coefficients in another mixture of the degrees. Within the constants the order counts:
a one in front of the large numbers is lost in their rounding. -/
theorem ofTerms_accumulates_mixed :
    let terms : List (Degree × Float) := [(0, 1.0), (1, 2.0), (0, 1e16), (0, -1e16), (1, 3.0)]
    let mixed : List (Degree × Float) := [(1, 2.0), (1, 3.0), (0, 1.0), (0, 1e16), (0, -1e16)]
    (∀ d, coefficientsAt d terms = coefficientsAt d mixed) ∧ ofTerms terms = ofTerms mixed ∧
      (ofTerms terms).terms = [(0, 0.0), (1, 5.0)] ∧
      (ofTerms [(0, 1e16), (0, -1e16), (0, (1.0 : Float))]).terms = [(0, 1.0)] := by
  intro terms mixed
  have agree : ∀ d, coefficientsAt d terms = coefficientsAt d mixed := by
    intro d
    by_cases constant : d = 0
    · rw [constant]
      rfl
    · by_cases linear : d = 1
      · rw [linear]
        rfl
      · simp [terms, mixed, coefficientsAt, Ne.symm constant, Ne.symm linear]
  obtain ⟨-, same, -⟩ := ofTerms_accumulates terms
  refine ⟨agree, same mixed agree, ?_, ?_⟩
  all_goals decide +kernel

end CurveArea.Polynomial
