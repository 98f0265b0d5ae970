import CurveArea.Polynomial.Calculus

/-!
# Samples of a curve

The points of a curve over an evenly spaced grid, the rows of the table of samples that a run
saves, and the range of values that a picture of the points has to show.
-/

namespace CurveArea.Samples

/-- The points of a curve over `samples` evenly spaced arguments (`sample_curve`). -/
def points {α : Type} [Scalar α] (p : Polynomial α) (i : Interval α) (samples : Nat) :
    List (α × α) :=
  (i.grid samples).map fun x => (x, p.evaluate x)

/-- How many samples a run takes of each curve (`CURVE_SAMPLES`). -/
def curveSamples : Nat := 200

/-- The lines of the table of two curves: a header, then an argument and both values a line. -/
def csvRows (p q : Polynomial Float) (i : Interval Float) (samples : Nat) :
    List (List (List Char)) :=
  ["x".toList, "f1(x)".toList, "f2(x)".toList] ::
    (i.grid samples).map fun x => [x, p.evaluate x, q.evaluate x].map Decimal.plainChars

/-- The fields of one line, joined by commas and closed by a line feed. No field holds a comma, a
quote or a line feed, so none is quoted. -/
def csvLine (fields : List (List Char)) : List Char :=
  [','].intercalate fields ++ ['\n']

/-- The text of the table of two curves (`save_samples_to_csv`). -/
def csv (p q : Polynomial Float) (i : Interval Float) (samples : Nat) : String :=
  String.ofList ((csvRows p q i samples).flatMap csvLine)

/-- The part of its height by which a picture is extended above and below. -/
def paddingPart : Float := 0.1

/-- The range of values for a picture of the points (`padded_y_range`): a tenth more than they span
on either side, or one unit if they span nothing. Without a finite lowest and highest value it is
the range from -1 to 1. -/
def paddedRange (points : List (Float × Float)) : Float × Float :=
  let low := points.foldl (fun low point => Scalar.smaller low point.2) Binary64.infinity
  let high := points.foldl (fun high point => Scalar.larger high point.2) (-Binary64.infinity)
  if low.isFinite && high.isFinite then
    let padding := (high - low) * paddingPart
    if padding == 0.0 then (low - 1.0, high + 1.0) else (low - padding, high + padding)
  else (-1.0, 1.0)

end CurveArea.Samples
