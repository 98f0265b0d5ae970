import CurveArea.Polynomial.Basic

/-!
# Approximate equality

Two polynomials are close if their coefficients are close at every degree that either of them
stores, an absent degree counting as zero.
-/

namespace CurveArea

namespace Polynomial

variable {α : Type} [Scalar α]

/-- Whether two numbers are at most `epsilon` apart. -/
def numbersWithin (epsilon x y : α) : Bool :=
  Scalar.abs (x - y) ≤ epsilon

/-- Whether two numbers are equal, at most `epsilon` apart, or apart by at most the part
`maxRelative` of the larger magnitude. An infinity is close to nothing but itself. -/
def numbersClose (epsilon maxRelative x y : α) : Bool :=
  if x == y then true
  else if isInfinite x || isInfinite y then false
  else if Scalar.abs (x - y) ≤ epsilon then true
  else Scalar.abs (x - y) ≤ Scalar.larger (Scalar.abs x) (Scalar.abs y) * maxRelative
where
  isInfinite (x : α) : Bool := !Scalar.isFinite x && x == x

/-- Whether the coefficients of two polynomials are at most `epsilon` apart at every degree
(`abs_diff_eq`). -/
def within (p q : Polynomial α) (epsilon : α) : Bool :=
  (degreesUnion p q).all fun d => numbersWithin epsilon (p.coefficient d) (q.coefficient d)

/-- Whether the coefficients of two polynomials are close at every degree, up to the absolute
tolerance `epsilon` or the relative one `maxRelative` (`relative_eq`). -/
def close (p q : Polynomial α) (epsilon maxRelative : α) : Bool :=
  (degreesUnion p q).all fun d =>
    numbersClose epsilon maxRelative (p.coefficient d) (q.coefficient d)

end Polynomial

end CurveArea
