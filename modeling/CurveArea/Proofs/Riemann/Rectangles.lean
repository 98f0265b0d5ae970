import CurveArea.Riemann
import Mathlib.Data.List.Basic

/-!
# The rectangles of a left Riemann sum

The sum and the list of rectangles are computed apart from each other, the one from two bounds that
it checks itself, the other from an interval. Adding up the areas of the listed rectangles from left
to right goes through the same sums as the loop does, so the results are equal and not only close.
-/

namespace CurveArea.Riemann

variable {α : Type} [Scalar α]

theorem leftSum_zero (p q : Polynomial α) (i : Interval α) :
    leftSum p q i 0 = .error (.invalidSubdivision 0) := rfl

theorem rectangles_zero (p q : Polynomial α) (i : Interval α) :
    rectangles p q i 0 = .error (.invalidSubdivision 0) := rfl

/-- The rectangle over the part that begins at a point. -/
def rectangleAt (p q : Polynomial α) (width x : α) : Rectangle α where
  x := x
  width := width
  height := Scalar.abs (p.evaluate x - q.evaluate x)
  base := Scalar.smaller (p.evaluate x) (q.evaluate x)

variable {n : Nat}

/-- There is one rectangle for each of the `n` parts. -/
theorem rectangles_of_pos (p q : Polynomial α) (i : Interval α) (positive : 0 < n) :
    rectangles p q i n = .ok ((List.range n).map fun k =>
      rectangleAt p q (i.step n) (i.point (i.step n) k)) := by
  rw [rectangles, checkCount_of_pos positive]
  rfl

/-- The loop adds one area after the other. -/
theorem leftSum_of_pos (p q : Polynomial α) (i : Interval α) (positive : 0 < n) :
    leftSum p q i n = .ok ((List.range n).foldl (fun sum k =>
      sum + (rectangleAt p q (i.step n) (i.point (i.step n) k)).area) Scalar.zero) := by
  rw [leftSum, checkCount_of_pos positive]
  rfl

/-- The left sum between two bounds and the rectangles over their interval fail alike, which is for
no rectangles only. Otherwise there are as many rectangles as asked for, and their areas, added to
zero from left to right, are the left sum. -/
theorem leftSumBetween_eq_foldl_area {a b : α} {i : Interval α}
    (valid : Interval.between a b = .ok i) (p q : Polynomial α) (n : Nat) :
    (n = 0 ∧ leftSumBetween p q a b n = .error (.invalidSubdivision 0) ∧
      rectangles p q i n = .error (.invalidSubdivision 0)) ∨
    (0 < n ∧ ∃ rs, rectangles p q i n = .ok rs ∧ rs.length = n ∧
      leftSumBetween p q a b n = .ok (rs.foldl (fun sum r => sum + r.area) Scalar.zero)) := by
  rw [leftSumBetween_eq_leftSum valid]
  rcases Nat.eq_zero_or_pos n with rfl | positive
  · exact .inl ⟨rfl, leftSum_zero p q i, rectangles_zero p q i⟩
  · refine .inr ⟨positive, _, rectangles_of_pos p q i positive, ?_, ?_⟩
    · rw [List.length_map, List.length_range]
    · rw [leftSum_of_pos p q i positive, List.foldl_map]

/-- Four rectangles between `x^2` and `x` from 0 to 2. -/
theorem leftSumBetween_eq_foldl_area_parabola :
    ∃ (p q : Polynomial Float) (i : Interval Float) (rs : List (Rectangle Float)),
      p.terms = [(2, 1.0)] ∧ q.terms = [(1, 1.0)] ∧ Interval.between 0.0 2.0 = .ok i ∧
      rectangles p q i 4 = .ok rs ∧ rs.map Rectangle.area = [0.0, 0.125, 0.0, 0.375] ∧
      leftSumBetween p q 0.0 2.0 4 = .ok (0.0 + 0.0 + 0.125 + 0.0 + 0.375) := by
  let p : Polynomial Float := ⟨[(2, 1.0)], by simp⟩
  let q : Polynomial Float := ⟨[(1, 1.0)], by simp⟩
  let i : Interval Float := ⟨0.0, 2.0, by decide +kernel⟩
  have valid : Interval.between 0.0 2.0 = .ok i := i.between_self
  obtain ⟨none, -⟩ | ⟨-, rs, found, -, sum⟩ := leftSumBetween_eq_foldl_area valid p q 4
  · cases none
  · have run : (rectangles p q i 4).map (·.map Rectangle.area) =
        .ok [0.0, 0.125, 0.0, 0.375] := by decide +kernel
    rw [found] at run
    have areas : rs.map Rectangle.area = [0.0, 0.125, 0.0, 0.375] := Except.ok.inj run
    have added : rs.foldl (fun sum r => sum + r.area) 0.0 =
        (rs.map Rectangle.area).foldl (· + ·) 0.0 := List.foldl_map.symm
    refine ⟨p, q, i, rs, rfl, rfl, valid, found, areas, sum.trans (congrArg Except.ok ?_)⟩
    rw [areas] at added
    exact added

end CurveArea.Riemann
