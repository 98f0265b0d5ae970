import CurveArea.Interval
import CurveArea.Polynomial.Calculus

/-!
# Left Riemann sums

The numeric side: the area between two curves as a sum of rectangles whose height is the distance of
the curves at their left edge. The distance has no sign, so the sum approaches the area of the
region between the curves even where they cross. `leftSum` adds the areas up; `rectangles` lists the
rectangles themselves.
-/

namespace CurveArea

/-- One rectangle between two curves (`RiemannRectangle`). -/
structure Rectangle (α : Type) where
  /-- The left edge, where both curves are sampled. -/
  x : α
  width : α
  /-- The distance of the curves at the left edge. -/
  height : α
  /-- The value of the lower curve at the left edge. -/
  base : α
  deriving DecidableEq, Repr

/-- The area of a rectangle (`RiemannRectangle::area`). -/
def Rectangle.area {α : Type} [Scalar α] (r : Rectangle α) : α := r.height * r.width

namespace Riemann

variable {α : Type} [Scalar α]

/-- A number of rectangles that may be used (`check_subdivisions`): a positive one. -/
def checkCount (requested : Int) : Except (AreaError α) Nat :=
  if 0 < requested then .ok requested.toNat else .error (.invalidSubdivision requested)

omit [Scalar α] in
theorem checkCount_of_pos {n : Nat} (positive : 0 < n) :
    (checkCount n : Except (AreaError α) Nat) = .ok n := by
  rw [checkCount, if_pos (Int.natCast_pos.mpr positive), Int.toNat_natCast]

/-- The left Riemann sum of the distance between two curves with `n` rectangles. -/
def leftSum (p q : Polynomial α) (i : Interval α) (n : Nat) : Except (AreaError α) α := do
  let n ← checkCount n
  let width := i.step n
  return (List.range n).foldl (fun sum k =>
    let x := i.point width k
    sum + Scalar.abs (p.evaluate x - q.evaluate x) * width) Scalar.zero

/-- The left Riemann sum between two bounds, which are checked first (`left_riemann_area`). -/
def leftSumBetween (p q : Polynomial α) (a b : α) (n : Nat) : Except (AreaError α) α := do
  leftSum p q (← Interval.between a b) n

theorem leftSumBetween_eq_leftSum {a b : α} {i : Interval α} (valid : Interval.between a b = .ok i)
    (p q : Polynomial α) (n : Nat) : leftSumBetween p q a b n = leftSum p q i n := by
  rw [leftSumBetween, valid]
  rfl

/-- The rectangles of the left Riemann sum, from left to right (`riemann_rectangles`). -/
def rectangles (p q : Polynomial α) (i : Interval α) (n : Nat) :
    Except (AreaError α) (List (Rectangle α)) := do
  let n ← checkCount n
  let width := i.step n
  return (List.range n).map fun k =>
    let x := i.point width k
    let y := p.evaluate x
    let z := q.evaluate x
    { x, width, height := Scalar.abs (y - z), base := Scalar.smaller y z }

end Riemann

end CurveArea
