import CurveArea.Riemann

/-!
# Reports

A report holds the area between two curves computed in both ways and how far the results are apart.
A computation also notes what it found on its way: the Riemann sum, both areas, and a warning if the
two differ by so much that the curves may cross.
-/

namespace CurveArea

/-- Something that a run notes. -/
inductive Note (α : Type)
  | leftSum (n : Nat) (a b sum : α)
  | areas (analytic riemann error : α)
  | crossing (relative a b : α) (n : Nat)
  | samplesSaved (path : String)
  deriving DecidableEq, Repr

/-- The area between two curves, computed in two ways (`AreaReport`). -/
structure Report (α : Type) where
  /-- The magnitude of the integral of the difference. -/
  analytic : α
  /-- The left Riemann sum of the distance. -/
  riemann : α
  /-- The distance of the two. -/
  absError : α
  /-- The number of rectangles. -/
  subdivisions : Nat
  deriving DecidableEq, Repr

namespace Report

variable {α : Type} [Scalar α]

/-- The error as a part of the larger area, zero if both areas are zero
(`AreaReport::relative_error`). -/
def relativeError (r : Report α) : α :=
  let scale := Scalar.larger (Scalar.abs r.analytic) (Scalar.abs r.riemann)
  if scale == Scalar.zero then Scalar.zero else r.absError / scale

/-- The relative error above which the areas are suspicious (`CROSSING_WARNING_THRESHOLD`): five
percent. -/
def crossingThreshold : α := Scalar.ofDecimal 5 2

/-- What a computation notes about its report. -/
def notes (r : Report α) (i : Interval α) : List (Note α) :=
  [.leftSum r.subdivisions i.a i.b r.riemann, .areas r.analytic r.riemann r.absError] ++
    if crossingThreshold < r.relativeError then
      [.crossing r.relativeError i.a i.b r.subdivisions]
    else []

/-- Computes both areas between two curves (`AreaReport::compute`). The integral comes first, so its
failure is the one that is told if the number of rectangles is zero as well; a failure leaves no
note. Both sides check the bounds of the interval again. -/
def compute (p q : Polynomial α) (i : Interval α) (n : Nat) :
    List (Note α) × Except (AreaError α) (Report α) :=
  match p.areaBetween q i.a i.b with
  | .error e => ([], .error e)
  | .ok analytic =>
    match Riemann.leftSumBetween p q i.a i.b n with
    | .error e => ([], .error e)
    | .ok riemann =>
      let report : Report α :=
        { analytic, riemann, absError := Scalar.abs (analytic - riemann), subdivisions := n }
      (report.notes i, .ok report)

/-- The bounds of an interval pass both checks. -/
theorem compute_eq_over (p q : Polynomial α) (i : Interval α) (n : Nat) :
    compute p q i n =
      match p.areaOver q i with
      | .error e => ([], .error e)
      | .ok analytic =>
        match Riemann.leftSum p q i n with
        | .error e => ([], .error e)
        | .ok riemann =>
          let report : Report α :=
            { analytic, riemann, absError := Scalar.abs (analytic - riemann), subdivisions := n }
          (report.notes i, .ok report) := by
  rw [compute, p.areaBetween_self, Riemann.leftSumBetween_eq_leftSum i.between_self]

end Report

end CurveArea
