import CurveArea.Polynomial.Text
import CurveArea.Proofs.Polynomial.Exact

/-!
# Parsing keeps the meaning

A text says a sum of terms in any order, with degrees that may repeat and terms that may cancel.
Without rounding, the polynomial that is parsed from it has the value of that sum at every point, as
long as no degree is left with a coefficient between zero and the tolerance.
-/

namespace CurveArea.Polynomial

variable {placed : List (PlacedToken ℚ)}

/-- The coefficients of one degree among tokens, added up. -/
def tokenSum (placed : List (PlacedToken ℚ)) (d : Degree) : ℚ :=
  ((placed.filter (·.token.degree = d)).map (·.token.coefficient)).sum

@[simp] theorem tokenSum_nil (d : Degree) : tokenSum [] d = 0 := rfl

@[simp] theorem tokenSum_cons (t : PlacedToken ℚ) (rest : List (PlacedToken ℚ)) (d : Degree) :
    tokenSum (t :: rest) d =
      (if t.token.degree = d then t.token.coefficient else 0) + tokenSum rest d := by
  rw [tokenSum, List.filter_cons]
  by_cases same : t.token.degree = d
  · simp [tokenSum, same]
  · simp [tokenSum, same]

/-- Constants and powers of one degree end up in one entry, which holds their sum. -/
theorem coefficient_ofTokens_rat (placed : List (PlacedToken ℚ)) (d : Degree) :
    (ofTokens placed).coefficient d = tokenSum placed d := by
  rw [ofTokens, coefficient_ofTerms, foldl_add_eq_sum, List.filter_map, List.map_map]
  exact zero_add _

/-- The value of all entries of the tokens' polynomial is that of the tokens. -/
theorem termSum_ofTokens (placed : List (PlacedToken ℚ)) (x : ℚ) :
    (ofTokens placed).termSum x =
      (placed.map fun t => t.token.coefficient * x ^ t.token.degree.toNat).sum := by
  rw [termSum, ofTokens, sum_terms_ofTerms fun d => x ^ d.toNat, List.map_map]
  rfl

/-- A text whose coefficients of one degree always add up to zero or to at least the tolerance is
parsed as a polynomial with the value of the text at every point. -/
theorem parse_evaluate {text : String} (read : Token.read text.toList = .ok placed)
    (clear : ∀ d, tokenSum placed d = 0 ∨ 1 / 10 ^ 10 ≤ |tokenSum placed d|) :
    ∃ p : Polynomial ℚ, parse text = .ok p ∧
      ∀ x, p.evaluate x =
        (placed.map fun t => t.token.coefficient * x ^ t.token.degree.toNat).sum := by
  refine ⟨ofTokens placed, by simp only [parse, read], fun x => ?_⟩
  have clearTerms : ∀ t ∈ (ofTokens placed).terms, t.2 = 0 ∨ 1 / 10 ^ 10 ≤ |t.2| := by
    intro t member
    rw [← coefficient_eq_of_mem member, coefficient_ofTokens_rat]
    exact clear t.1
  rw [evaluate_eq_termSum clearTerms, termSum_ofTokens]

/-- A constant beside a zeroth power, two terms that cancel, and a square between them, at zero and
at a negative point. -/
theorem parse_evaluate_cancelled :
    ∃ (placed : List (PlacedToken ℚ)) (p : Polynomial ℚ),
      Token.read "x^0 + 2x - 3x^2 + 4 - 2x".toList = .ok placed ∧
      (∀ d, tokenSum placed d = 0 ∨ 1 / 10 ^ 10 ≤ |tokenSum placed d|) ∧
      parse "x^0 + 2x - 3x^2 + 4 - 2x" = .ok p ∧ p.evaluate 0 = 5 ∧
      p.evaluate (-1 / 2) = 17 / 4 := by
  let placed : List (PlacedToken ℚ) := [⟨.power 1 0, 0, "x^0".toList⟩, ⟨.power 2 1, 3, "+2x".toList⟩,
    ⟨.power (-3) 2, 6, "-3x^2".toList⟩, ⟨.constant 4, 11, "+4".toList⟩,
    ⟨.power (-2) 1, 13, "-2x".toList⟩]
  have read : Token.read "x^0 + 2x - 3x^2 + 4 - 2x".toList = .ok placed := by decide +kernel
  have sums : ∀ d, tokenSum placed d = if d = 0 then 5 else if d = 2 then -3 else 0 := by
    intro d
    simp only [placed, tokenSum_cons, tokenSum_nil, Token.degree, Token.coefficient]
    by_cases constant : d = 0
    · subst constant
      decide +kernel
    · by_cases square : d = 2
      · subst square
        decide +kernel
      · by_cases first : d = 1
        · subst first
          decide +kernel
        · simp [constant, square, Ne.symm constant, Ne.symm square, Ne.symm first]
  have clear : ∀ d, tokenSum placed d = 0 ∨ 1 / 10 ^ 10 ≤ |tokenSum placed d| := by
    intro d
    rw [sums]
    split
    · norm_num
    · split
      · norm_num
      · exact .inl rfl
  obtain ⟨p, parsed, value⟩ := parse_evaluate read clear
  have two : (2 : Degree).toNat = 2 := rfl
  refine ⟨placed, p, read, clear, parsed, ?_, ?_⟩
  · rw [value]
    norm_num [placed, Token.degree, Token.coefficient, two, UInt32.toNat_one]
  · rw [value]
    norm_num [placed, Token.degree, Token.coefficient, two, UInt32.toNat_one]

end CurveArea.Polynomial
