import CurveArea.AreaError
import CurveArea.Interval
import CurveArea.Polynomial.Basic

/-!
# Evaluation, integration and difference

The analytic side: the value of a polynomial, its antiderivative, the definite integral as the
difference of two values of it, and the area between two curves as the magnitude of the integral of
their difference. That area counts what lies above and below with opposite signs, so it is the area
of the region between the curves only where they do not cross.
-/

namespace CurveArea

namespace Polynomial

variable {α : Type} [Scalar α]

/-- The value at `x` (`Polynomial::evaluate`): the terms that count, by increasing degree, each
coefficient multiplied by its power. -/
def evaluate (p : Polynomial α) (x : α) : α :=
  p.significantTerms.foldl (fun sum term => sum + term.2 * Scalar.power x term.1.toNat)
    Scalar.emptySum

/-- The indefinite integral with the constant zero (`Polynomial::antiderivative`): `c x ^ d` becomes
`c / (d + 1) x ^ (d + 1)`. A stored term of the largest degree has no integral, whatever its
coefficient. -/
def antiderivative (p : Polynomial α) : Except (AreaError α) (Polynomial α) :=
  p.terms.foldlM (fun integral term =>
    match term.1.succ? with
    | none => .error (.degreeOverflow term.1)
    | some d => .ok (integral.addTerm d (term.2 / Scalar.ofNat d.toNat))) zero

/-- The integral from `lower` to `upper`, in either order (`Polynomial::definite_integral`). -/
def definiteIntegral (p : Polynomial α) (lower upper : α) : Except (AreaError α) α := do
  let integral ← p.antiderivative
  return integral.evaluate upper - integral.evaluate lower

/-- The difference of two polynomials at every degree that either stores (`Polynomial::difference`).
Where they coincide, a zero coefficient stays. -/
def difference (p q : Polynomial α) : Polynomial α :=
  ofTerms ((degreesUnion p q).map fun d => (d, p.coefficient d - q.coefficient d))

/-- The magnitude of the integral of the difference over an interval. -/
def areaOver (p q : Polynomial α) (i : Interval α) : Except (AreaError α) α := do
  let integral ← (p.difference q).definiteIntegral i.a i.b
  return Scalar.abs integral

/-- The magnitude of the integral of the difference between two bounds, which are checked first
(`Polynomial::abs_area_between`). -/
def areaBetween (p q : Polynomial α) (a b : α) : Except (AreaError α) α := do
  p.areaOver q (← Interval.between a b)

/-- The area over an interval is the one between its bounds: they pass the check again. -/
theorem areaBetween_self (p q : Polynomial α) (i : Interval α) :
    p.areaBetween q i.a i.b = p.areaOver q i := by
  rw [areaBetween, i.between_self]
  rfl

end Polynomial

end CurveArea
