import CurveArea.AreaError
import CurveArea.Scalar

/-!
# Intervals

The interval that an area is computed on: two finite bounds in order, so close together that their
difference is finite as well. The bounds carry the proof of this, so an `Interval` needs no second
check.
-/

namespace CurveArea

/-- Whether two numbers bound an interval. -/
def properBounds {α : Type} [Scalar α] (a b : α) : Bool :=
  Scalar.isFinite a && Scalar.isFinite b && !decide (b ≤ a) && Scalar.isFinite (b - a)

theorem properBounds_iff {α : Type} [Scalar α] {a b : α} :
    properBounds a b = true ↔ Scalar.isFinite a = true ∧ Scalar.isFinite b = true ∧ ¬ b ≤ a ∧
      Scalar.isFinite (b - a) = true := by
  simp [properBounds, and_assoc]

/-- A closed interval with finite bounds, the lower one first, and a finite length. -/
structure Interval (α : Type) [Scalar α] where
  a : α
  b : α
  proper : properBounds a b = true

namespace Interval

variable {α : Type} [Scalar α]

/-- The interval between two bounds, or the failure that names them (`Interval::new`). -/
def between (a b : α) : Except (AreaError α) (Interval α) :=
  if h : properBounds a b = true then .ok ⟨a, b, h⟩ else .error (.invalidInterval a b)

/-- The bounds of an interval pass the check again. -/
theorem between_self (i : Interval α) : between i.a i.b = .ok i := dif_pos i.proper

/-- The distance between the bounds (`Interval::length`). -/
def length (i : Interval α) : α := i.b - i.a

/-- The width of each of `n` equal parts (`Interval::step`). -/
def step (i : Interval α) (n : Nat) : α := i.length / Scalar.ofNat n

/-- The point `k` steps of a width above the lower bound. -/
def point (i : Interval α) (width : α) (k : Nat) : α := i.a + Scalar.ofNat k * width

/-- `samples` evenly spaced points from `a` to `b` (`linspace`). The last one is `b` itself,
whatever the rounding of the step; a single point is `a`. -/
def grid (i : Interval α) (samples : Nat) : List α :=
  match samples with
  | 0 => []
  | 1 => [i.a]
  | parts + 1 =>
    let width := i.step parts
    (List.range parts).map (i.point width) ++ [i.b]

end Interval

end CurveArea
