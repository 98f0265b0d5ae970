import CurveArea.Degree
import CurveArea.Decimal.Notation

/-!
# Failures of an area computation

What can go wrong between the text of a polynomial and an area, each with the data that its message
shows. The bounds of an interval are numbers of the scalar that the computation runs on; only
binary64 numbers have a written form.
-/

namespace CurveArea

/-- Why an area could not be computed (`PolyError`). -/
inductive AreaError (α : Type)
  /-- The text at `position` is no term, or none that may stand there. -/
  | malformedTerm (fragment : String) (position : Nat) (reason : String)
  /-- The bounds are not finite, not in order, or too far apart. -/
  | invalidInterval (a b : α)
  /-- A number of rectangles that is not positive. -/
  | invalidSubdivision (requested : Int)
  /-- A term whose integral would need a degree beyond the largest. -/
  | degreeOverflow (degree : Degree)
  deriving DecidableEq, Repr

/-- The message that is shown for a failure (`PolyError::fmt`). -/
def AreaError.message : AreaError Float → String
  | .malformedTerm fragment position reason =>
    "malformed term '" ++ fragment ++ "' at position " ++ toString position ++ ": " ++ reason
  | .invalidInterval a b =>
    "invalid interval [" ++ Decimal.plain a ++ ", " ++ Decimal.plain b ++
      "]: b must be finite and greater than a"
  | .invalidSubdivision requested =>
    "invalid number of rectangles " ++ toString requested ++ ": must be positive"
  | .degreeOverflow degree =>
    "cannot integrate term of degree " ++ toString degree.toNat ++ ": degree overflow"

end CurveArea
