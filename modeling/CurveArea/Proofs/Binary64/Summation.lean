import CurveArea.Proofs.Binary64.Sums

/-!
# Sums of many numbers

A sum is added up from zero, one number after another, and every addition is rounded. For each
number it is off by one part in `2 ^ 53` of all magnitudes together at most, so two orders of the
same numbers give sums that are close where the magnitudes are not too large for the number of
numbers.
-/

namespace CurveArea.Binary64

/-- The numbers added up from zero in their order, every addition rounded. -/
def roundedSum (numbers : List Float) : Float := numbers.foldl (· + ·) 0.0

/-- The exact sum of numbers. -/
def exactSum (numbers : List Float) : ℚ := (numbers.map toRat).sum

/-- The exact sum of the magnitudes of numbers. -/
def absSum (numbers : List Float) : ℚ := (numbers.map fun c => |toRat c|).sum

variable {numbers reordered : List Float}

/-! ## Two numbers -/

theorem roundedSum_pair_comm (x y : Float) : roundedSum [x, y] = roundedSum [y, x] := by
  change 0.0 + x + y = 0.0 + y + x
  have zero : (0.0 : Float) + -0.0 = 0.0 := rfl
  by_cases hx : x = -0.0
  · rw [hx, zero, add_neg_zero]
  · by_cases hy : y = -0.0
    · rw [hy, zero, add_neg_zero]
    · rw [zero_add_of_ne hx, zero_add_of_ne hy, Binary64.add_comm]

/-- The order of up to two numbers does not matter, whatever they are. -/
theorem roundedSum_eq_of_length_le_two (order : numbers.Perm reordered)
    (short : numbers.length ≤ 2) : roundedSum numbers = roundedSum reordered := by
  match numbers, short with
  | [], _ => rw [List.nil_perm.mp order]
  | [x], _ => rw [List.singleton_perm.mp order]
  | [x, y], _ =>
    rcases List.pair_perm.mp order with rfl | rfl
    · rfl
    · exact roundedSum_pair_comm x y

/-! ## The error of a sum -/

theorem roundedSum_concat (numbers : List Float) (c : Float) :
    roundedSum (numbers ++ [c]) = roundedSum numbers + c := by
  rw [roundedSum, List.foldl_append]
  rfl

theorem exactSum_concat (numbers : List Float) (c : Float) :
    exactSum (numbers ++ [c]) = exactSum numbers + toRat c := by
  simp [exactSum]

theorem absSum_concat (numbers : List Float) (c : Float) :
    absSum (numbers ++ [c]) = absSum numbers + |toRat c| := by
  simp [absSum]

theorem absSum_nonneg (numbers : List Float) : 0 ≤ absSum numbers := by
  apply List.sum_nonneg
  intro a member
  obtain ⟨c, -, rfl⟩ := List.mem_map.mp member
  exact abs_nonneg _

theorem abs_exactSum_le (numbers : List Float) : |exactSum numbers| ≤ absSum numbers := by
  induction numbers using List.reverseRecOn with
  | nil => exact abs_zero.le
  | append_singleton front c ih =>
    rw [exactSum_concat, absSum_concat]
    exact (abs_add_le _ _).trans (add_le_add ih le_rfl)

theorem exactSum_perm (order : numbers.Perm reordered) : exactSum numbers = exactSum reordered :=
  (order.map _).sum_eq

theorem absSum_perm (order : numbers.Perm reordered) : absSum numbers = absSum reordered :=
  (order.map _).sum_eq

section Addition

variable {s : Float} {a c e S N : ℚ}

theorem abs_add_le_of_error (exact : |e| ≤ S) (error : |toRat s - e| ≤ N * S) :
    |toRat s + c| ≤ N * S + (S + |c|) := by
  have through := abs_add_le (toRat s - e) (e + c)
  rw [← add_assoc, sub_add_cancel] at through
  exact through.trans (add_le_add error ((abs_add_le e c).trans (add_le_add exact le_rfl)))

/-- One more number adds its share to the error of a sum: if it is large, the rounding is off by a
part of it, and if it is small, by the number itself at most. -/
theorem abs_sub_le_of_rounded (rounded : Rounded (toRat s + c) a) (finite : s.isFinite = true)
    (exact : |e| ≤ S) (nonneg : 0 ≤ N) (error : |toRat s - e| ≤ N * S) :
    |a - (e + c)| ≤ (N + 1 / 2 ^ 53) * (S + |c|) := by
  have split : |a - (e + c)| ≤ |a - (toRat s + c)| + |toRat s - e| := by
    have through := abs_sub_le a (toRat s + c) (e + c)
    rwa [add_sub_add_right_eq_sub] at through
  have product : 0 ≤ N * |c| := mul_nonneg nonneg (abs_nonneg _)
  rcases le_total |c| (1 / 2 ^ 53 * S) with small | large
  · have near : |a - (toRat s + c)| ≤ |c| := by
      have nearest := rounded.nearest finite
      rwa [sub_add_cancel_left, abs_neg] at nearest
    have share : 0 ≤ 1 / 2 ^ 53 * |c| := by positivity
    rw [add_mul, mul_add, mul_add]
    linarith only [split, near, error, small, product, share]
  · have size := abs_add_le_of_error (c := c) exact error
    have part : |a - (toRat s + c)| ≤ N * (1 / 2 ^ 53 * S) + 1 / 2 ^ 53 * (S + |c|) :=
      calc |a - (toRat s + c)| ≤ |toRat s + c| / 2 ^ 53 := rounded.abs_sub_le
        _ ≤ (N * S + (S + |c|)) / 2 ^ 53 := by gcongr
        _ = N * (1 / 2 ^ 53 * S) + 1 / 2 ^ 53 * (S + |c|) := by ring
    have shared : N * (1 / 2 ^ 53 * S) ≤ N * |c| := mul_le_mul_of_nonneg_left large nonneg
    rw [add_mul, mul_add]
    linarith only [split, part, shared, error]

end Addition

/-- A sum of finite numbers that stays in range is off by one part in `2 ^ 53` of all magnitudes for
each number at most. -/
theorem roundedSum_error (finite : ∀ c ∈ numbers, c.isFinite = true)
    (inRange : (1 + numbers.length / 2 ^ 53) * absSum numbers < overflowBound) :
    (roundedSum numbers).isFinite = true ∧
      |toRat (roundedSum numbers) - exactSum numbers| ≤
        numbers.length / 2 ^ 53 * absSum numbers := by
  induction numbers using List.reverseRecOn with
  | nil =>
    refine ⟨rfl, ?_⟩
    simp [roundedSum, exactSum, absSum]
  | append_singleton front c ih =>
    obtain ⟨finiteFront, finiteLast⟩ := List.forall_mem_append.mp finite
    have hc : c.isFinite = true := finiteLast c (by simp)
    have count : ((front ++ [c]).length : ℚ) / 2 ^ 53 = front.length / 2 ^ 53 + 1 / 2 ^ 53 := by
      rw [List.length_append, List.length_singleton, Nat.cast_add, Nat.cast_one, add_div]
    have some_front : (0 : ℚ) ≤ front.length / 2 ^ 53 := by positivity
    have magnitudes := absSum_nonneg front
    rw [count, absSum_concat] at inRange
    rw [count, absSum_concat, exactSum_concat, roundedSum_concat]
    have grows : (1 + front.length / 2 ^ 53) * absSum front ≤
        (1 + (front.length / 2 ^ 53 + 1 / 2 ^ 53)) * (absSum front + |toRat c|) := by
      gcongr
      · exact le_add_of_nonneg_right (by positivity)
      · exact le_add_of_nonneg_right (abs_nonneg _)
    obtain ⟨finiteSum, error⟩ := ih finiteFront (grows.trans_lt inRange)
    have exact := abs_exactSum_le front
    have rounds := roundsInto_add finiteSum hc
    have size : |toRat (roundedSum front) + toRat c| < overflowBound := by
      refine lt_of_le_of_lt ((abs_add_le_of_error exact error).trans ?_) inRange
      rw [one_add_mul, add_comm (front.length / 2 ^ 53 * absSum front)]
      gcongr
      · exact le_add_of_nonneg_right (by positivity)
      · exact le_add_of_nonneg_right (abs_nonneg _)
    have finite' := rounds.isFinite size
    exact ⟨finite', abs_sub_le_of_rounded (rounds.rounded finite') finiteSum exact some_front error⟩

/-- Two orders of the same numbers have sums that are at most twice the error of one apart. -/
theorem abs_sub_roundedSum_le (order : numbers.Perm reordered)
    (finite : ∀ c ∈ numbers, c.isFinite = true)
    (inRange : (1 + numbers.length / 2 ^ 53) * absSum numbers < overflowBound) :
    (roundedSum numbers).isFinite = true ∧ (roundedSum reordered).isFinite = true ∧
      |toRat (roundedSum numbers) - toRat (roundedSum reordered)| ≤
        2 * (numbers.length / 2 ^ 53 * absSum numbers) := by
  obtain ⟨finiteFirst, first⟩ := roundedSum_error finite inRange
  have finite' : ∀ c ∈ reordered, c.isFinite = true := fun c member =>
    finite c (order.mem_iff.mpr member)
  rw [absSum_perm order, order.length_eq] at inRange
  obtain ⟨finiteSecond, second⟩ := roundedSum_error finite' inRange
  rw [← absSum_perm order, ← order.length_eq, ← exactSum_perm order, abs_sub_comm] at second
  refine ⟨finiteFirst, finiteSecond, ?_⟩
  have through := abs_sub_le (toRat (roundedSum numbers)) (exactSum numbers)
    (toRat (roundedSum reordered))
  linarith only [through, first, second]

theorem toRat_tolerance : toRat 1e-10 = 7737125245533627 / 2 ^ 86 := by
  have parts : unpacked 1e-10 = .finite .positive 7737125245533627 (-86) (by decide) := by rfl
  rw [toRat_of_unpacked parts, zpow_neg, ← div_eq_mul_inv]
  rfl

/-- Numbers that are few and small enough for the tolerance are far from being out of range. -/
theorem inRange_of_few (few : numbers.length * absSum numbers ≤ 2 ^ 52 / 10 ^ 10) :
    (1 + numbers.length / 2 ^ 53) * absSum numbers < overflowBound := by
  have nonneg := absSum_nonneg numbers
  have magnitudes : absSum numbers ≤ 2 ^ 52 / 10 ^ 10 := by
    rcases numbers.eq_nil_or_concat with rfl | ⟨front, c, rfl⟩
    · norm_num [absSum]
    · refine le_trans (le_mul_of_one_le_left nonneg ?_) few
      simp
  have small : (1 + numbers.length / 2 ^ 53) * absSum numbers ≤ 2 ^ 53 := by
    linarith only [few, magnitudes]
  refine lt_of_le_of_lt small ?_
  rw [overflowBound]
  exact pow_lt_pow_right₀ one_lt_two (by decide)

/-- Two orders of the same numbers have sums within the tolerance where the number of numbers times
their magnitudes is at most `2 ^ 52 / 10 ^ 10`, about 450 000. -/
theorem abs_sub_roundedSum_le_tolerance (order : numbers.Perm reordered)
    (finite : ∀ c ∈ numbers, c.isFinite = true)
    (few : numbers.length * absSum numbers ≤ 2 ^ 52 / 10 ^ 10) :
    (roundedSum numbers - roundedSum reordered).abs ≤ (1e-10 : Float) := by
  have inRange : (1 + numbers.length / 2 ^ 53) * absSum numbers < overflowBound :=
    inRange_of_few few
  obtain ⟨hx, hy, apart⟩ := abs_sub_roundedSum_le order finite inRange
  have close : |toRat (roundedSum numbers) - toRat (roundedSum reordered)| ≤ toRat 1e-10 := by
    have share : 2 * (numbers.length / 2 ^ 53 * absSum numbers) ≤ 1 / 10 ^ 10 := by
      linarith only [few]
    have decimal : (1 : ℚ) / 10 ^ 10 ≤ toRat 1e-10 := by
      rw [toRat_tolerance]
      norm_num
    exact apart.trans (share.trans decimal)
  have number : (1e-10 : Float).isFinite = true := by decide +kernel
  have rounds := isRounding_sub hx hy
  have finite' : (roundedSum numbers - roundedSum reordered).isFinite = true :=
    rounds.isFinite_iff.mpr (close.trans_lt ((le_abs_self _).trans_lt
      (abs_toRat_lt_overflowLimit number)))
  have number' : (-1e-10 : Float).isFinite = true := (isFinite_neg _).trans number
  obtain ⟨low, high⟩ := abs_le.mp close
  rw [← toRat_neg] at low
  refine le_of_toRat_le ((isFinite_abs _).trans finite') number ?_
  rw [toRat_abs, abs_le, ← toRat_neg]
  exact ⟨(IsRounding.of_toRat number').toRat_le_of_le rounds number' finite' low,
    rounds.toRat_le_of_le (.of_toRat number) finite' number high⟩

end CurveArea.Binary64
