import CurveArea.Interval
import CurveArea.Proofs.Binary64.Products

/-!
# Evenly spaced points

The points of a grid rise from the lower bound of the interval, whatever the rounding. The last one
is the upper bound itself, and the others are multiples of the step. Where the step is so small that
rounding it up weighs more than the last part of the interval, these multiples pass the bound. So a
grid is in order exactly where the last point that is computed is not beyond the bound, and it is in
order if the interval is wide for the number of points.
-/

namespace CurveArea.Interval

open Binary64 (toRat minExponent IsRounding)

/-- What holds of evenly spaced points whatever the rounding: they are as many as were asked for,
from one bound to the other, none is below the lower bound, and all but the last are in order. -/
structure Rises (i : Interval Float) (samples : Nat) (points : List Float) : Prop where
  length : points.length = samples
  first : points.head?.any (· == i.a) = true
  last : points.getLast? = some i.b
  low : ∀ x ∈ points, i.a ≤ x
  rising : points.dropLast.Pairwise (· ≤ ·)

/-- What is expected of evenly spaced points: the last one is in order with the others as well, and
none is above the upper bound. -/
structure Covers (i : Interval Float) (samples : Nat) (points : List Float) : Prop
    extends Rises i samples points where
  ordered : points.Pairwise (· ≤ ·)
  high : ∀ x ∈ points, x ≤ i.b

variable (i : Interval Float)

/-! ## The bounds -/

theorem bounds : i.a.isFinite = true ∧ i.b.isFinite = true ∧ i.length.isFinite = true ∧
    toRat i.a < toRat i.b := by
  obtain ⟨ha, hb, order, finite⟩ := properBounds_iff.mp i.proper
  refine ⟨ha, hb, finite, not_le.mp fun le => order ?_⟩
  exact Binary64.le_of_toRat_le hb ha le

theorem isRounding_length : IsRounding (toRat i.b - toRat i.a) i.length :=
  Binary64.isRounding_sub i.bounds.2.1 i.bounds.1

theorem toRat_length_nonneg : 0 ≤ toRat i.length := by
  obtain ⟨-, -, finite, order⟩ := i.bounds
  exact i.isRounding_length.toRat_nonneg finite (sub_nonneg.mpr order.le)

variable {n : Nat}

/-- All points but the last are computed from the step. -/
theorem grid_eq (positive : 0 < n) :
    i.grid (n + 1) = (List.range n).map (i.point (i.step n)) ++ [i.b] := by
  cases n with
  | zero => cases positive
  | succ n => rfl

theorem mem_grid_iff (positive : 0 < n) {x : Float} :
    x ∈ i.grid (n + 1) ↔ (∃ k < n, i.point (i.step n) k = x) ∨ x = i.b := by
  rw [i.grid_eq positive]
  simp

/-! ## The step and the points -/

section Step

theorem isFinite_step (positive : 0 < n) : (i.step n).isFinite = true :=
  Binary64.isFinite_div_of_one_le i.bounds.2.2.1 (Binary64.one_le_ofNat positive)

theorem isRounding_multiple (positive : 0 < n) {k : Nat} (small : k < 2 ^ 64) :
    IsRounding (toRat (Float.ofNat k) * toRat (i.step n)) (Float.ofNat k * i.step n) :=
  Binary64.isRounding_mul (Binary64.isFinite_ofNat small) (i.isFinite_step positive)

/-- The first point is the lower bound. -/
theorem toRat_point_zero (positive : 0 < n) :
    (i.point (i.step n) 0).isFinite = true ∧ toRat (i.point (i.step n) 0) = toRat i.a := by
  have origin := i.isRounding_multiple positive (k := 0) (by decide)
  rw [(Binary64.toRat_ofNat (n := 0) (by decide)).2, Nat.cast_zero, zero_mul] at origin
  obtain ⟨some_zero, vanishes⟩ := origin.toRat_eq_zero
  have sum := Binary64.isRounding_add i.bounds.1 some_zero
  rw [vanishes, add_zero] at sum
  exact sum.toRat_eq i.bounds.1

variable (positive : 0 < n) (word : n < 2 ^ 64)

include positive word

theorem isRounding_step : IsRounding (toRat i.length / toRat (Float.ofNat n)) (i.step n) := by
  have some_part := Binary64.one_le_toRat_ofNat positive word
  exact Binary64.isRounding_div i.bounds.2.2.1 (Binary64.isFinite_ofNat word)
    (by linarith only [some_part])

theorem toRat_step_nonneg : 0 ≤ toRat (i.step n) := by
  have some_part := Binary64.one_le_toRat_ofNat positive word
  refine (i.isRounding_step positive word).toRat_nonneg (i.isFinite_step positive) ?_
  exact div_nonneg i.toRat_length_nonneg (by linarith only [some_part])

/-- The points that are computed from the step are in order. -/
theorem point_mono {k l : Nat} (le : k ≤ l) (small : l < 2 ^ 64) :
    i.point (i.step n) k ≤ i.point (i.step n) l := by
  refine Binary64.add_le_add_left i.bounds.1 ?_
  refine (i.isRounding_multiple positive (by omega)).le_of_le
    (i.isRounding_multiple positive small) ?_
  exact mul_le_mul_of_nonneg_right (Binary64.toRat_ofNat_mono le small)
    (i.toRat_step_nonneg positive word)

theorem a_le_point {k : Nat} (small : k < 2 ^ 64) : i.a ≤ i.point (i.step n) k := by
  obtain ⟨finite, same⟩ := i.toRat_point_zero positive
  exact Binary64.le_trans (Binary64.le_of_toRat_le i.bounds.1 finite same.ge)
    (i.point_mono positive word (Nat.zero_le k) small)

theorem grid_rises : i.Rises (n + 1) (i.grid (n + 1)) where
  length := by
    rw [i.grid_eq positive]
    simp
  first := by
    obtain ⟨m, rfl⟩ := Nat.exists_eq_succ_of_ne_zero positive.ne'
    obtain ⟨finite, same⟩ := i.toRat_point_zero positive
    rw [i.grid_eq positive, List.range_succ_eq_map]
    exact Binary64.beq_of_toRat_eq finite i.bounds.1 same
  last := by
    rw [i.grid_eq positive]
    exact List.getLast?_concat
  low := by
    intro x member
    rcases (i.mem_grid_iff positive).mp member with ⟨k, below, rfl⟩ | rfl
    · exact i.a_le_point positive word (by omega)
    · obtain ⟨ha, hb, -, order⟩ := i.bounds
      exact Binary64.le_of_toRat_le ha hb order.le
  rising := by
    rw [i.grid_eq positive, List.dropLast_concat, List.pairwise_map]
    refine List.pairwise_lt_range.imp_of_mem fun _ member before => ?_
    exact i.point_mono positive word before.le ((List.mem_range.mp member).trans word)

/-- A grid is in order exactly where the last point that is computed is not beyond the bound. -/
theorem covers_grid_iff :
    i.Covers (n + 1) (i.grid (n + 1)) ↔ i.point (i.step n) (n - 1) ≤ i.b := by
  have rises := i.grid_rises positive word
  constructor
  · intro covers
    exact covers.high _ ((i.mem_grid_iff positive).mpr (.inl ⟨n - 1, by omega, rfl⟩))
  · intro within
    have high : ∀ x ∈ i.grid (n + 1), x ≤ i.b := by
      intro x member
      rcases (i.mem_grid_iff positive).mp member with ⟨k, below, rfl⟩ | rfl
      · exact Binary64.le_trans (i.point_mono positive word (by omega) (by omega)) within
      · exact Binary64.le_self (Binary64.ne_nan_of_isFinite i.bounds.2.1)
    refine ⟨rises, ?_, high⟩
    have ordered := rises.rising
    rw [i.grid_eq positive] at high ordered ⊢
    rw [List.dropLast_concat] at ordered
    refine List.pairwise_append.mpr ⟨ordered, List.pairwise_singleton _ _, ?_⟩
    intro x member y last
    rw [List.mem_singleton.mp last]
    exact high x (List.mem_append_left _ member)

end Step

/-! ## Wide intervals -/

/-- Three roundings do not carry a multiple of the step past the upper bound, if the interval is
wide for the number of parts: the last part outweighs what they are off by. -/
theorem multiple_le_of_wide {N l s D η : ℚ} (one_le : 1 ≤ N) (few : N ≤ 2 ^ 50) (nonneg : 0 ≤ η)
    (wide : N ^ 2 * (32 * η) ≤ D) (length : l ≤ D + (D / 2 ^ 53 + η))
    (step : s ≤ l / N + (l / N / 2 ^ 53 + η)) :
    (N - 1) * s + ((N - 1) * s / 2 ^ 53 + η) ≤ D := by
  obtain ⟨q, part⟩ : ∃ q, D / N = q := ⟨_, rfl⟩
  have positive : 0 < N := by linarith
  have whole : D = N * q := by rw [← part, mul_div_cancel₀ _ positive.ne']
  have narrow : N * (32 * η) ≤ q := by
    rw [← part, le_div_iff₀ positive]
    linarith only [wide]
  have apart : l / N ≤ q + (q / 2 ^ 53 + η) := by
    rw [div_le_iff₀ positive]
    have share : η ≤ η * N := le_mul_of_one_le_right nonneg one_le
    rw [whole] at length
    linarith only [length, share]
  have nonneg' : 0 ≤ q := le_trans (by positivity) narrow
  have single : s ≤ q + (3 * (q / 2 ^ 53) + 3 * η) := by
    linarith only [apart, step, nonneg, nonneg']
  have some_parts : (N - 1) * s ≤ (N - 1) * (q + (3 * (q / 2 ^ 53) + 3 * η)) :=
    mul_le_mul_of_nonneg_left single (by linarith only [one_le])
  have share : N * q ≤ 2 ^ 50 * q := mul_le_mul_of_nonneg_right few nonneg'
  have product : 0 ≤ N * η := by positivity
  rw [whole]
  linarith only [some_parts, share, narrow, product, nonneg, nonneg']

/-- The last point that is computed is not beyond the bound of a wide interval. -/
theorem point_le_of_wide (positive : 0 < n) (few : n ≤ 2 ^ 50)
    (wide : (n : ℚ) ^ 2 * 2 ^ (-1070 : Int) ≤ toRat i.b - toRat i.a) :
    i.point (i.step n) (n - 1) ≤ i.b := by
  have word : n < 2 ^ 64 := by omega
  obtain ⟨ha, hb, finite, order⟩ := i.bounds
  have one_le : (1 : ℚ) ≤ n := by exact_mod_cast positive
  have exact := (Binary64.toRat_ofNat (n := n) (by omega)).2
  have before := (Binary64.toRat_ofNat (n := n - 1) (by omega)).2
  rw [Nat.cast_sub positive, Nat.cast_one] at before
  have length := i.isRounding_length.toRat_le_add finite (sub_nonneg.mpr order.le)
  have step := (i.isRounding_step positive word).toRat_le_add (i.isFinite_step positive)
    (div_nonneg i.toRat_length_nonneg (exact ▸ by linarith only [one_le]))
  have multiple := i.isRounding_multiple positive (k := n - 1) (by omega)
  rw [exact] at step
  rw [before] at multiple
  -- sixteen times the least place, of which every rounding may be off by a half
  have least : (2 : ℚ) ^ (-1070 : Int) = 32 * (2 ^ minExponent / 2) := by
    have above : (-1070 : Int) = minExponent + 4 := rfl
    rw [above, zpow_add₀ two_ne_zero]
    ring
  rw [least] at wide
  have within := multiple_le_of_wide one_le (by exact_mod_cast few) (by positivity) wide length step
  have product : 0 ≤ ((n : ℚ) - 1) * toRat (i.step n) :=
    mul_nonneg (by linarith only [one_le]) (i.toRat_step_nonneg positive word)
  have below : ((n : ℚ) - 1) * toRat (i.step n) ≤ toRat i.b - toRat i.a := by
    have error : (0 : ℚ) < 2 ^ minExponent := zpow_pos two_pos _
    linarith only [within, product, error]
  have inRange := i.isRounding_length.isFinite_iff.mp finite
  rw [abs_of_pos (sub_pos.mpr order)] at inRange
  have finite' : (Float.ofNat (n - 1) * i.step n).isFinite = true := by
    rw [multiple.isFinite_iff, abs_of_nonneg product]
    exact below.trans_lt inRange
  refine (Binary64.isRounding_add ha finite').le_of_le (.of_toRat hb) ?_
  linarith only [within, multiple.toRat_le_add finite' product]

/-- A grid of any number of points that a machine word can hold rises from the lower bound, and it
is in order up to the upper one exactly where the last point that is computed is not beyond that
bound. So it is in an interval that is wide for the number of points. -/
theorem grid_covers_iff {samples : Nat} (several : 2 ≤ samples) (word : samples < 2 ^ 64) :
    i.Rises samples (i.grid samples) ∧
      (i.Covers samples (i.grid samples) ↔
        i.point (i.step (samples - 1)) (samples - 2) ≤ i.b) ∧
      (samples - 1 ≤ 2 ^ 50 →
        ((samples - 1 : Nat) : ℚ) ^ 2 * 2 ^ (-1070 : Int) ≤ toRat i.b - toRat i.a →
        i.Covers samples (i.grid samples)) := by
  obtain ⟨n, rfl⟩ : ∃ n, samples = n + 1 := ⟨samples - 1, by omega⟩
  have positive : 0 < n := by omega
  have covers := i.covers_grid_iff positive (by omega)
  exact ⟨i.grid_rises positive (by omega), covers,
    fun few wide => covers.mpr (i.point_le_of_wide positive few wide)⟩

/-- The interval from 0 to 1. -/
def unit : Interval Float := ⟨0.0, 1.0, by decide +kernel⟩

/-- The interval from 0 to 1 is wide for five points. -/
theorem grid_covers_iff_quarters :
    2 ≤ 5 ∧ 5 < 2 ^ 64 ∧ unit.Covers 5 (unit.grid 5) := by
  have wide : ((5 - 1 : Nat) : ℚ) ^ 2 * 2 ^ (-1070 : Int) ≤ toRat unit.b - toRat unit.a := by
    decide +kernel
  exact ⟨by decide, by decide,
    (unit.grid_covers_iff (by decide) (by decide)).2.2 (by decide) wide⟩

/-- The interval from 0 to three times the least positive number. -/
def threeLeast : Interval Float := ⟨0.0, 1.5e-323, by decide +kernel⟩

/-- A fifth of it is rounded up to the least positive number, so the fifth point is four times that
number, beyond the bound that follows it. -/
theorem grid_beyond_bound : ¬ threeLeast.Covers 6 (threeLeast.grid 6) := by
  intro covers
  have beyond : ¬ threeLeast.point (threeLeast.step 5) 4 ≤ threeLeast.b := by decide +kernel
  exact beyond ((threeLeast.covers_grid_iff (n := 5) (by decide) (by decide)).mp covers)

end CurveArea.Interval
