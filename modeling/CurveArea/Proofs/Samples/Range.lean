import CurveArea.Samples
import CurveArea.Proofs.Binary64.Products

/-!
# The range of a picture

The range around points is their lowest and their highest value, padded on both sides by the same
amount: a tenth of what the values span, or one where this is zero. Padding never cuts a point off.
It leaves the range of the numbers where the values span too much, and a padding of one is lost in
the rounding where the values are all the same and too large.
-/

namespace CurveArea.Samples

open Binary64 (toRat IsRounding HalfEven overflowLimit minExponent)

variable {points : List (Float × Float)} {low high : Float}

/-! ## The lowest and the highest value -/

/-- Two values of points with all others between them. -/
structure Spans (points : List (Float × Float)) (low high : Float) : Prop where
  low_mem : ∃ p ∈ points, p.2 = low
  high_mem : ∃ p ∈ points, p.2 = high
  between : ∀ p ∈ points, low ≤ p.2 ∧ p.2 ≤ high

/-- Picking one of two numbers again and again ends with one that is related to all of them. -/
theorem foldl_pick {R : Float → Float → Prop} {pick : Float → Float → Float}
    (refl : ∀ x, x ≠ Float.nan → R x x) (trans : ∀ x y z, R x y → R y z → R x z)
    (picks : ∀ x y, pick x y = x ∨ pick x y = y)
    (related : ∀ x y, x ≠ Float.nan → y ≠ Float.nan → R (pick x y) x ∧ R (pick x y) y)
    (numbers : ∀ p ∈ points, p.2 ≠ Float.nan) (start : Float) (number : start ≠ Float.nan) :
    (points.foldl (fun picked point => pick picked point.2) start = start ∨
        ∃ p ∈ points, p.2 = points.foldl (fun picked point => pick picked point.2) start) ∧
      R (points.foldl (fun picked point => pick picked point.2) start) start ∧
      ∀ p ∈ points, R (points.foldl (fun picked point => pick picked point.2) start) p.2 := by
  induction points generalizing start with
  | nil => exact ⟨.inl rfl, refl start number, nofun⟩
  | cons point points ih =>
    rw [List.forall_mem_cons] at numbers
    obtain ⟨here, others⟩ := numbers
    have ⟨towardsStart, towardsPoint⟩ := related start point.2 number here
    have picked : pick start point.2 ≠ Float.nan := by
      rcases picks start point.2 with same | same
      · rwa [same]
      · rwa [same]
    obtain ⟨origin, towards, all⟩ := ih others _ picked
    rw [List.foldl_cons, List.forall_mem_cons]
    refine ⟨?_, trans _ _ _ towards towardsStart, trans _ _ _ towards towardsPoint, all⟩
    rcases origin with same | ⟨p, member, value⟩
    · rcases picks start point.2 with first | second
      · exact .inl (same.trans first)
      · exact .inr ⟨point, List.mem_cons_self, (same.trans second).symm⟩
    · exact .inr ⟨p, List.mem_cons_of_mem _ member, value⟩

/-- The lowest value, folded from infinity. -/
def lowest (points : List (Float × Float)) : Float :=
  points.foldl (fun low point => Scalar.smaller low point.2) Binary64.infinity

/-- The highest value, folded from negative infinity. -/
def highest (points : List (Float × Float)) : Float :=
  points.foldl (fun high point => Scalar.larger high point.2) (-Binary64.infinity)

/-- The values of points that are all finite have a lowest and a highest one. -/
theorem spans_lowest_highest (some_points : points ≠ [])
    (finite : ∀ p ∈ points, p.2.isFinite = true) :
    Spans points (lowest points) (highest points) := by
  have numbers : ∀ p ∈ points, p.2 ≠ Float.nan := fun p member =>
    Binary64.ne_nan_of_isFinite (finite p member)
  obtain ⟨least, -, below⟩ := foldl_pick (R := (· ≤ ·)) (fun _ => Binary64.le_self)
    (fun _ _ _ => Binary64.le_trans) Binary64.smaller_eq_or (fun _ _ => Binary64.smaller_le) numbers
    Binary64.infinity (by rw [Binary64.infinity_eq_inf]; exact nofun)
  obtain ⟨greatest, -, above⟩ := foldl_pick (R := (· ≥ ·)) (fun _ => Binary64.le_self)
    (fun _ _ _ first second => Binary64.le_trans second first) Binary64.larger_eq_or
    (fun _ _ => Binary64.le_larger) numbers (-Binary64.infinity)
    (by rw [Binary64.infinity_eq_inf]; exact nofun)
  obtain ⟨p, member⟩ := List.exists_mem_of_ne_nil points some_points
  refine ⟨least.resolve_left fun infinite => ?_, greatest.resolve_left fun infinite => ?_,
    fun p member => ⟨below p member, above p member⟩⟩
  · have beyond := below p member
    rw [infinite, Binary64.infinity_eq_inf] at beyond
    have special := finite p member
    rw [Binary64.eq_inf_of_inf_le beyond] at special
    cases special
  · have beyond := above p member
    rw [infinite, Binary64.infinity_eq_inf] at beyond
    have special := finite p member
    rw [Binary64.eq_neg_inf_of_le beyond] at special
    cases special

theorem Spans.isFinite (h : Spans points low high) (finite : ∀ p ∈ points, p.2.isFinite = true) :
    low.isFinite = true ∧ high.isFinite = true ∧ toRat low ≤ toRat high := by
  obtain ⟨p, first, rfl⟩ := h.low_mem
  obtain ⟨q, second, rfl⟩ := h.high_mem
  exact ⟨finite p first, finite q second,
    Binary64.toRat_le_of_le (finite p first) (finite q second) (h.between q second).1⟩

/-! ## The padding -/

/-- What a range is extended by on either side. -/
def padding (low high : Float) : Float :=
  if (high - low) * paddingPart == 0.0 then 1.0 else (high - low) * paddingPart

theorem paddedRange_eq (finite : (lowest points).isFinite = true)
    (finite' : (highest points).isFinite = true) :
    paddedRange points =
      (lowest points - padding (lowest points) (highest points),
        highest points + padding (lowest points) (highest points)) := by
  have both : ((lowest points).isFinite && (highest points).isFinite) = true := by
    rw [finite, finite']
    rfl
  refine (if_pos both).trans ?_
  change (if (highest points - lowest points) * paddingPart == 0.0 then
      (lowest points - 1.0, highest points + 1.0)
    else (lowest points - (highest points - lowest points) * paddingPart,
      highest points + (highest points - lowest points) * paddingPart)) = _
  rw [padding]
  split <;> rfl

theorem toRat_paddingPart : 0 ≤ toRat paddingPart ∧ toRat paddingPart ≤ 1 := by
  constructor <;> decide +kernel

/-- A tenth of what the values span. -/
theorem isRounding_tenth (finite : (high - low).isFinite = true) :
    IsRounding (toRat (high - low) * toRat paddingPart) ((high - low) * paddingPart) :=
  Binary64.isRounding_mul finite (by decide +kernel)

section Padding

variable (hl : low.isFinite = true) (hh : high.isFinite = true)

include hl hh

/-- Values that span too much are padded by infinity. -/
theorem padding_of_large (large : overflowLimit ≤ toRat high - toRat low) :
    padding low high = Float.inf := by
  have positive := Binary64.overflowLimit_pos
  have infinite : high - low = Float.inf := by
    cases Binary64.isRounding_sub hh hl with
    | finite finite rounded =>
      have inRange := rounded.abs_lt_overflowLimit (Binary64.abs_toRat_le finite)
      exact absurd ((le_abs_self _).trans_lt inRange) (not_lt.mpr large)
    | above infinite beyond => exact infinite
    | below infinite beyond => linarith only [large, beyond, positive]
  rw [padding, infinite]
  decide +kernel

/-- Other values are padded by a number that is not negative. -/
theorem padding_of_inRange (order : toRat low ≤ toRat high)
    (inRange : toRat high - toRat low < overflowLimit) :
    (padding low high).isFinite = true ∧ 0.0 ≤ padding low high := by
  have rounds := Binary64.isRounding_sub hh hl
  have finite : (high - low).isFinite = true := by
    rwa [rounds.isFinite_iff, abs_of_nonneg (sub_nonneg.mpr order)]
  have tenth := isRounding_tenth finite
  obtain ⟨nonneg, le_one⟩ := toRat_paddingPart
  have span := rounds.toRat_nonneg finite (sub_nonneg.mpr order)
  have product : 0 ≤ toRat (high - low) * toRat paddingPart := mul_nonneg span nonneg
  have finite' : ((high - low) * paddingPart).isFinite = true := by
    rw [tenth.isFinite_iff, abs_of_nonneg product]
    exact (mul_le_of_le_one_right span le_one).trans_lt
      ((le_abs_self _).trans_lt (Binary64.abs_toRat_lt_overflowLimit finite))
  rw [padding]
  split
  · exact ⟨rfl, by decide +kernel⟩
  · exact ⟨finite', tenth.nonneg product⟩

/-- Values that are all the same are padded by one. -/
theorem padding_of_flat (flat : toRat low = toRat high) : padding low high = 1.0 := by
  have span := Binary64.isRounding_sub hh hl
  rw [flat, sub_self] at span
  obtain ⟨finite, none⟩ := span.toRat_eq_zero
  have tenth := isRounding_tenth finite
  rw [none, zero_mul] at tenth
  obtain ⟨finite', none'⟩ := tenth.toRat_eq_zero
  rw [padding, if_pos]
  exact Binary64.beq_of_toRat_eq finite' rfl (none'.trans Binary64.toRat_zero.symm)

end Padding

/-! ## One more and one less -/

/-- The numbers that are not lost in the rounding when one is added and taken away: all up to
`2 ^ 53`, and beyond that the odd ones of those that are two apart. -/
def Movable (y : ℚ) : Prop := |y| ≤ 2 ^ 53 ∨ |y| < 2 ^ 54 ∧ ∃ k : Int, Odd k ∧ y = 2 * k

/-- What rounding moves back by one has a place of two at least. -/
theorem place_of_moved {v y : ℚ} {place multiple : Int} (h : HalfEven v y place multiple)
    (one : |y - v| = 1) :
    1 ≤ place ∧ 2 ^ 53 ≤ |v| ∧ (|v| < 2 ^ 54 → Even multiple ∧ y = 2 * multiple) := by
  have near := h.near
  rw [one, mul_one] at near
  have coarse : 1 ≤ place := by
    by_contra fine
    have small : (2 : ℚ) ^ place ≤ 2 ^ (0 : Int) := zpow_le_zpow_right₀ one_le_two (by omega)
    rw [zpow_zero] at small
    linarith only [near, small]
  have notLeast : place ≠ minExponent := by
    rintro rfl
    exact absurd coarse (by decide)
  have digits := h.digits.resolve_right notLeast
  refine ⟨coarse, by linarith only [near, digits], fun small => ?_⟩
  have last : place = 1 := by
    by_contra other
    have coarser : (2 : ℚ) ^ (2 : Int) ≤ 2 ^ place := zpow_le_zpow_right₀ one_le_two (by omega)
    have four : (2 : ℚ) ^ (2 : Int) = 4 := rfl
    rw [four] at coarser
    linarith only [coarser, digits, small]
  have value := h.eq_mul
  rw [last, zpow_one] at value
  refine ⟨h.even ?_, by rw [value, mul_comm]⟩
  rw [one, last, zpow_one, mul_one]

/-- Other numbers are what one more and one less are rounded to. -/
theorem exists_halfEven_of_not_movable (hl : low.isFinite = true) (stuck : ¬ Movable (toRat low))
    {d : ℚ} (one : |d| = 1) :
    ∃ place multiple, HalfEven (toRat low + d) (toRat low) place multiple := by
  obtain ⟨large, odd⟩ := not_or.mp stuck
  have moved : |toRat low - (toRat low + d)| = 1 := by rwa [sub_add_cancel_left, abs_neg]
  have far : |toRat low| - 1 ≤ |toRat low + d| := by
    have through := abs_add_le (toRat low + d) (-d)
    rw [add_neg_cancel_right, abs_neg, one] at through
    linarith only [through]
  rcases Binary64.unpacked_cases hl with ⟨s, zero⟩ | ⟨s, m, e, positive, parts, canonical⟩
  · rw [Binary64.toRat_of_zero zero, abs_zero] at large
    exact absurd (by positivity) large
  · have value := Binary64.toRat_of_unpacked parts
    have scale : (0 : ℚ) < 2 ^ e := zpow_pos two_pos e
    have size : |toRat low| = m * 2 ^ e := by
      rw [value, abs_mul, Binary64.abs_apply, abs_of_pos scale]
    have short : (m : ℚ) < 2 ^ 53 := by exact_mod_cast canonical.mantissa_lt
    have coarse : 1 ≤ e := by
      by_contra fine
      have small : (2 : ℚ) ^ e ≤ 2 ^ (0 : Int) := zpow_le_zpow_right₀ one_le_two (by omega)
      rw [zpow_zero] at small
      refine large (size ▸ le_trans ?_ short.le)
      exact mul_le_of_le_one_right m.cast_nonneg small
    have leading : (2 : ℚ) ^ 52 ≤ m := by
      have notLeast : e ≠ minExponent := by
        rintro rfl
        exact absurd coarse (by decide)
      exact_mod_cast canonical.leading.resolve_right notLeast
    rcases eq_or_lt_of_le coarse with rfl | coarser
    · -- the number is twice its mantissa, which is even
      rw [zpow_one] at value size
      refine ⟨1, s.apply m, by rw [zpow_one, value], ?_, fun _ => ?_, .inl ?_⟩
      · rw [moved, zpow_one, mul_one]
      · by_contra notEven
        refine odd ⟨by linarith only [size, short], s.apply m, Int.not_even_iff_odd.mp notEven, ?_⟩
        rw [value, mul_comm]
      · have beyond : 2 ^ 52 < m := by
          have beyond' : (2 : ℚ) ^ 52 < m := by linarith only [size, not_le.mp large]
          exact_mod_cast beyond'
        have next : (2 : ℚ) ^ 52 + 1 ≤ m := by exact_mod_cast beyond
        rw [zpow_one]
        linarith only [far, size, next]
    · -- half of the last place is more than one, and the mantissa counted in it is even
      have double : (2 : ℚ) ^ e = 2 * 2 ^ (e - 1) := by
        rw [zpow_sub_one₀ two_ne_zero]
        ring
      have half : (2 : ℚ) ≤ 2 ^ (e - 1) := by
        calc (2 : ℚ) = 2 ^ (1 : Int) := (zpow_one _).symm
          _ ≤ 2 ^ (e - 1) := zpow_le_zpow_right₀ one_le_two (by omega)
      refine ⟨e - 1, 2 * s.apply m, ?_, ?_, fun _ => even_two_mul _, .inl ?_⟩
      · rw [value, double]
        push_cast
        ring
      · rw [moved, mul_one]
        exact half
      · have digits : (2 : ℚ) ^ 52 * (2 * 2 ^ (e - 1)) ≤ m * (2 * 2 ^ (e - 1)) := by gcongr
        rw [double] at size
        linarith only [far, size, digits, half]

/-- Exactly the movable numbers are between what one less and one more are rounded to. -/
theorem lt_iff_movable {lo hi : Float} (hl : low.isFinite = true) (hlo : lo.isFinite = true)
    (hhi : hi.isFinite = true) (less : IsRounding (toRat low - 1) lo)
    (more : IsRounding (toRat low + 1) hi) : toRat lo < toRat hi ↔ Movable (toRat low) := by
  obtain ⟨_, _, first⟩ := less.exists_halfEven hlo
  obtain ⟨_, _, second⟩ := more.exists_halfEven hhi
  constructor
  · intro apart
    by_contra stuck
    obtain ⟨_, _, back⟩ := exists_halfEven_of_not_movable hl stuck (d := -1) (by norm_num)
    obtain ⟨_, _, back'⟩ := exists_halfEven_of_not_movable hl stuck (d := 1) (by norm_num)
    rw [← sub_eq_add_neg] at back
    rw [first.toRat_eq back hlo hl, second.toRat_eq back' hhi hl] at apart
    exact lt_irrefl _ apart
  · intro movable
    have below := less.toRat_le_of_le (.of_toRat hl) hlo hl (by linarith only)
    have above := (IsRounding.of_toRat hl).toRat_le_of_le more hl hhi (by linarith only)
    by_contra together
    have same : toRat lo = toRat low := by linarith only [below, above, not_lt.mp together]
    have same' : toRat hi = toRat low := by linarith only [below, above, not_lt.mp together]
    rw [same] at first
    rw [same'] at second
    obtain ⟨-, far, even⟩ := place_of_moved first (by rw [sub_sub_cancel, abs_one])
    obtain ⟨-, far', even'⟩ := place_of_moved second (by
      rw [sub_add_cancel_left, abs_neg, abs_one])
    rcases movable with small | ⟨small, k, odd, value⟩
    · -- one of the two is nearer to zero than `2 ^ 53`
      obtain ⟨low', high'⟩ := abs_le.mp small
      rcases le_abs'.mp far with far | far
      · rcases le_abs'.mp far' with far' | far'
        · linarith only [far', low']
        · linarith only [far, far']
      · linarith only [far, high']
    · obtain ⟨low', high'⟩ := abs_lt.mp small
      have notEven : ∀ n : Int, Even n ∧ toRat low = 2 * n → False := by
        rintro n ⟨evenly, again⟩
        have counted : k = n := by
          rw [value] at again
          exact_mod_cast mul_left_cancel₀ two_ne_zero again
        exact Int.not_even_iff_odd.mpr odd (counted ▸ evenly)
      -- the one towards zero is halfway between two multiples of two
      rcases le_total 0 (toRat low) with nonneg | nonpos
      · exact notEven _ (even (abs_lt.mpr ⟨by linarith only [nonneg], by linarith only [high']⟩))
      · exact notEven _ (even' (abs_lt.mpr ⟨by linarith only [low'], by linarith only [nonpos]⟩))

/-! ## The range -/

/-- What is expected of a range around points: it is finite, it has a height, and it holds all of
the points. -/
structure Proper (points : List (Float × Float)) (range : Float × Float) : Prop where
  finite_low : range.1.isFinite = true
  finite_high : range.2.isFinite = true
  height : range.1 < range.2
  inside : ∀ p ∈ points, range.1 ≤ p.2 ∧ p.2 ≤ range.2

/-- The padding stays in the range of the numbers: what the values span is in it, and so are the two
ends. -/
structure InRange (low high : Float) : Prop where
  span : toRat high - toRat low < overflowLimit
  low_end : -overflowLimit < toRat low - toRat (padding low high)
  high_end : toRat high + toRat (padding low high) < overflowLimit

section Ends

variable (hl : low.isFinite = true) (hh : high.isFinite = true) (order : toRat low ≤ toRat high)

include hl hh order

theorem padding_nonneg : 0.0 ≤ padding low high := by
  by_cases inRange : toRat high - toRat low < overflowLimit
  · exact (padding_of_inRange hl hh order inRange).2
  · rw [padding_of_large hl hh (not_lt.mp inRange)]
    decide

theorem isFinite_ends_iff :
    (low - padding low high).isFinite = true ∧ (high + padding low high).isFinite = true ↔
      InRange low high := by
  by_cases inRange : toRat high - toRat low < overflowLimit
  · obtain ⟨finite, nonneg⟩ := padding_of_inRange hl hh order inRange
    have nonneg' := Binary64.toRat_nonneg_of_le finite nonneg
    have bound := abs_lt.mp (Binary64.abs_toRat_lt_overflowLimit hl)
    have bound' := abs_lt.mp (Binary64.abs_toRat_lt_overflowLimit hh)
    rw [(Binary64.isRounding_sub hl finite).isFinite_iff,
      (Binary64.isRounding_add hh finite).isFinite_iff, abs_lt, abs_lt]
    constructor
    · rintro ⟨⟨below, -⟩, -, above⟩
      exact ⟨inRange, below, above⟩
    · rintro ⟨-, below, above⟩
      exact ⟨⟨below, by linarith only [bound.2, nonneg']⟩, by linarith only [bound'.1, nonneg'],
        above⟩
  · refine iff_of_false ?_ fun fits => inRange fits.span
    rintro ⟨finite, -⟩
    rw [padding_of_large hl hh (not_lt.mp inRange)] at finite
    exact absurd (Binary64.isFinite_of_isFinite_sub finite).2 nofun

/-- The ends are apart if the values are, or if one more and one less are apart. -/
theorem ends_lt_iff (fits : InRange low high) :
    low - padding low high < high + padding low high ↔
      toRat low < toRat high ∨ Movable (toRat low) := by
  obtain ⟨finite, finite'⟩ := (isFinite_ends_iff hl hh order).mpr fits
  obtain ⟨below, -⟩ := Binary64.sub_le_self_le_add hl (padding_nonneg hl hh order)
  obtain ⟨-, above⟩ := Binary64.sub_le_self_le_add hh (padding_nonneg hl hh order)
  have below' := Binary64.toRat_le_of_le finite hl below
  have above' := Binary64.toRat_le_of_le hh finite' above
  rcases lt_or_eq_of_le order with apart | flat
  · refine iff_of_true (Binary64.lt_of_toRat_lt finite finite' ?_) (.inl apart)
    linarith only [below', above', apart]
  · have one : toRat 1.0 = 1 := by decide +kernel
    have less := Binary64.isRounding_sub hl (y := 1.0) rfl
    have more := Binary64.isRounding_add hh (y := 1.0) rfl
    rw [padding_of_flat hl hh flat] at finite finite' ⊢
    rw [one] at less
    rw [one, ← flat] at more
    have movable := lt_iff_movable hl finite finite' less more
    rw [or_iff_right flat.not_lt, ← movable]
    exact ⟨Binary64.toRat_lt_of_lt finite finite', Binary64.lt_of_toRat_lt finite finite'⟩

end Ends

/-- The range holds all of the points. It is finite unless the padding leaves the range of the
numbers, and then it has a height unless all values are the same and not movable by one. -/
theorem paddedRange_proper_iff (some_points : points ≠ [])
    (finite : ∀ p ∈ points, p.2.isFinite = true) :
    Spans points (lowest points) (highest points) ∧
      (∀ p ∈ points, (paddedRange points).1 ≤ p.2 ∧ p.2 ≤ (paddedRange points).2) ∧
      (Proper points (paddedRange points) ↔
        InRange (lowest points) (highest points) ∧
          (toRat (lowest points) < toRat (highest points) ∨ Movable (toRat (lowest points)))) := by
  have spans := spans_lowest_highest some_points finite
  obtain ⟨hl, hh, order⟩ := spans.isFinite finite
  have nonneg := padding_nonneg hl hh order
  have inside : ∀ p ∈ points, (paddedRange points).1 ≤ p.2 ∧ p.2 ≤ (paddedRange points).2 := by
    intro p member
    obtain ⟨above, below⟩ := spans.between p member
    rw [paddedRange_eq hl hh]
    exact ⟨Binary64.le_trans (Binary64.sub_le_self_le_add hl nonneg).1 above,
      Binary64.le_trans below (Binary64.sub_le_self_le_add hh nonneg).2⟩
  refine ⟨spans, inside, ?_, ?_⟩
  · intro proper
    obtain ⟨first, second, height, -⟩ := proper
    rw [paddedRange_eq hl hh] at first second height
    have fits := (isFinite_ends_iff hl hh order).mp ⟨first, second⟩
    exact ⟨fits, (ends_lt_iff hl hh order fits).mp height⟩
  · rintro ⟨fits, apart⟩
    obtain ⟨first, second⟩ := (isFinite_ends_iff hl hh order).mpr fits
    have height := (ends_lt_iff hl hh order fits).mpr apart
    rw [paddedRange_eq hl hh] at inside ⊢
    exact ⟨first, second, height, inside⟩

/-- Two points with the values 0 and 10. -/
def twoPoints : List (Float × Float) := [(0.0, 0.0), (1.0, 10.0)]

/-- The range around them is from -1 to 11. -/
theorem paddedRange_proper_iff_twoPoints :
    twoPoints ≠ [] ∧ (∀ p ∈ twoPoints, p.2.isFinite = true) ∧
      Proper twoPoints (paddedRange twoPoints) := by
  have some_points : twoPoints ≠ [] := List.cons_ne_nil _ _
  have finite : ∀ p ∈ twoPoints, p.2.isFinite = true := by decide +kernel
  have fits : InRange (lowest twoPoints) (highest twoPoints) :=
    (isFinite_ends_iff (by decide +kernel) (by decide +kernel) (by decide +kernel)).mp
      (by decide +kernel)
  exact ⟨some_points, finite,
    (paddedRange_proper_iff some_points finite).2.2.mpr ⟨fits, .inl (by decide +kernel)⟩⟩

/-- One more and one less than ten to the seventeenth are rounded back to it, and what two large
values of opposite signs span is out of range. -/
theorem paddedRange_improper :
    ¬ Proper [(0.0, 1e17)] (paddedRange [(0.0, 1e17)]) ∧
      ¬ Proper [(0.0, -1.7e308), (1.0, 1.7e308)]
        (paddedRange [(0.0, -1.7e308), (1.0, 1.7e308)]) := by
  constructor
  · intro proper
    exact absurd proper.height (by decide +kernel)
  · intro proper
    exact absurd proper.finite_low (by decide +kernel)

end CurveArea.Samples
