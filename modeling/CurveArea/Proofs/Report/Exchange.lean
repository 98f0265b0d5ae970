import CurveArea.Proofs.Binary64.Signs
import CurveArea.Proofs.Polynomial.Entries
import CurveArea.Report

/-!
# The order of the curves

Exchanging two curves mirrors their difference at every degree, and with it the antiderivative and
its values, so that the magnitude of the integral is the same to the last bit. So is every height of
the left Riemann sum. A report, its notes and its failure do not tell which curve came first.
-/

namespace CurveArea

namespace Polynomial

open Binary64 (Mirrored)

/-- Terms of one degree with mirrored coefficients. -/
def MirroredTerms (s t : Degree × Float) : Prop := s.1 = t.1 ∧ Mirrored s.2 t.2

/-- The differences of two polynomials in both orders are mirrored at every degree. -/
theorem mirrored_difference (p q : Polynomial Float) :
    List.Forall₂ MirroredTerms (p.difference q).terms (q.difference p).terms := by
  rw [terms_difference, terms_difference, degreesUnion_comm q p, List.forall₂_map_left_iff,
    List.forall₂_map_right_iff, List.forall₂_same]
  intro d _
  exact ⟨rfl, Binary64.mirrored_zero.add (Binary64.mirrored_sub _ _)⟩

variable {p q : Polynomial Float}

theorem isNegligible_eq_of_mirrored {x y : Float} (h : Mirrored x y) :
    isNegligible x = isNegligible y := by
  have same : Scalar.abs x = Scalar.abs y := h.abs_eq
  rw [isNegligible, isNegligible, same]

theorem mirrored_evaluate (h : List.Forall₂ MirroredTerms p.terms q.terms) (x : Float) :
    Mirrored (p.evaluate x) (q.evaluate x) := by
  have counts : List.Forall₂ MirroredTerms p.significantTerms q.significantTerms := by
    refine List.rel_filter ?_ h
    intro s t mirrored
    simp only [isNegligible_eq_of_mirrored mirrored.2]
  refine List.rel_foldl (P := Mirrored) ?_ Binary64.mirrored_neg_zero counts
  rintro sum sum' sums ⟨d, c⟩ ⟨_, c'⟩ ⟨rfl, coefficients⟩
  exact sums.add (coefficients.mul _)

/-- Integration keeps mirrored polynomials mirrored, and fails on both alike. -/
theorem mirrored_antiderivative (h : List.Forall₂ MirroredTerms p.terms q.terms) :
    (∃ e, p.antiderivative = .error e ∧ q.antiderivative = .error e) ∨
      ∃ P Q, p.antiderivative = .ok P ∧ q.antiderivative = .ok Q ∧
        List.Forall₂ MirroredTerms P.terms Q.terms := by
  have degrees : p.degrees = q.degrees := by
    have pairs : List.Forall₂ (· = ·) p.degrees q.degrees :=
      List.rel_map (fun _ _ mirrored => mirrored.1) h
    rwa [List.forall₂_eq_eq_eq] at pairs
  by_cases hasMax : Degree.max ∈ p.degrees
  · left
    exact ⟨_, antiderivative_of_max_mem hasMax, antiderivative_of_max_mem (degrees ▸ hasMax)⟩
  · right
    obtain ⟨P, found, terms⟩ := exists_antiderivative hasMax
    obtain ⟨Q, found', terms'⟩ := exists_antiderivative (degrees ▸ hasMax)
    refine ⟨P, Q, found, found', ?_⟩
    rw [terms, terms']
    refine List.rel_map ?_ h
    rintro ⟨d, c⟩ ⟨_, c'⟩ ⟨rfl, coefficients⟩
    exact ⟨rfl, Binary64.mirrored_zero.add (coefficients.div _)⟩

/-- The magnitude of an integral is that of the mirrored one. -/
theorem definiteIntegral_map_abs_eq (h : List.Forall₂ MirroredTerms p.terms q.terms)
    (a b : Float) :
    (p.definiteIntegral a b).map Float.abs = (q.definiteIntegral a b).map Float.abs := by
  rcases mirrored_antiderivative h with ⟨e, failed, failed'⟩ | ⟨P, Q, found, found', mirrored⟩
  · rw [definiteIntegral, definiteIntegral, failed, failed']
  · have values := (mirrored_evaluate mirrored b).sub (mirrored_evaluate mirrored a)
    rw [definiteIntegral, definiteIntegral, found, found']
    exact congrArg Except.ok values.abs_eq

theorem areaOver_comm (p q : Polynomial Float) (i : Interval Float) :
    p.areaOver q i = q.areaOver p i := by
  have same := definiteIntegral_map_abs_eq (mirrored_difference p q) i.a i.b
  rw [areaOver, areaOver]
  exact same

end Polynomial

theorem Riemann.leftSum_comm (p q : Polynomial Float) (i : Interval Float) (n : Nat) :
    leftSum p q i n = leftSum q p i n := by
  have height : ∀ x, Scalar.abs (p.evaluate x - q.evaluate x) =
      Scalar.abs (q.evaluate x - p.evaluate x) :=
    fun x => Binary64.abs_sub_comm (p.evaluate x) (q.evaluate x)
  simp only [leftSum, height]

/-- Exchanging the curves changes nothing that a computation returns: not the report, not the
failure, and not the notes. -/
theorem Report.compute_comm (p q : Polynomial Float) (i : Interval Float) (n : Nat) :
    compute p q i n = compute q p i n := by
  rw [compute_eq_over, compute_eq_over, Polynomial.areaOver_comm, Riemann.leftSum_comm]

end CurveArea
