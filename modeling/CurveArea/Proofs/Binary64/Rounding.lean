import CurveArea.Proofs.Binary64.HalfEven

/-!
# Rounding

A value is rounded to a multiple of a place which is at most half of it away: no number is nearer to
it, and it is off by one part in `2 ^ 53`, or by half of the least place. Of two numbers that are
equally near it is the even one that is rounded to, so rounding keeps the order. What is too far
from zero becomes infinite, and that is decided by the value alone.
-/

namespace CurveArea.Binary64

open Float.Model (UnpackedFloat Format)
open Float.Model.UnpackedFloat (Sign)

variable {v w a b : ℚ} {place multiple : Int} {x y z : Float}

/-! ## The nearest number -/

/-- A multiple of a place is one of every finer place. -/
theorem mul_zpow_of_le (n : Int) {u t : Int} (finer : u ≤ t) :
    (n : ℚ) * 2 ^ t = ((n * 2 ^ (t - u).toNat : Int) : ℚ) * 2 ^ u := by
  have width : t = u + (t - u).toNat := by omega
  conv_lhs => rw [width, two_zpow_add]
  push_cast
  ring

/-- A multiple of a place that is at most half of it away is a nearest one. -/
theorem abs_sub_le_of_multiple {t r : Int} (near : 2 * |r * 2 ^ t - v| ≤ 2 ^ t) (n : Int) :
    |r * 2 ^ t - v| ≤ |n * 2 ^ t - v| := by
  by_cases same : n = r
  · rw [same]
  · have place : (0 : ℚ) < 2 ^ t := zpow_pos two_pos t
    have apart : (1 : ℚ) ≤ |((n - r : Int) : ℚ)| := by
      exact_mod_cast Int.one_le_abs (sub_ne_zero.mpr same)
    have gap : (2 : ℚ) ^ t ≤ |(n : ℚ) * 2 ^ t - r * 2 ^ t| := by
      rw [← sub_mul, ← Int.cast_sub, abs_mul, abs_of_pos place]
      exact le_mul_of_one_le_left place.le apart
    have through := abs_sub_le (n * 2 ^ t : ℚ) v (r * 2 ^ t)
    rw [abs_sub_comm v] at through
    linarith

/-- No number is nearer than a multiple of a place that is at most half of it away, if the value has
all digits in front of that place. -/
theorem abs_sub_le_of_placed {t r : Int} (near : 2 * |r * 2 ^ t - v| ≤ 2 ^ t)
    (digits : 2 ^ 52 * 2 ^ t ≤ |v| ∨ t = minExponent) (finite : z.isFinite = true) :
    |r * 2 ^ t - v| ≤ |toRat z - v| := by
  have place : (0 : ℚ) < 2 ^ t := zpow_pos two_pos t
  -- numbers with a finer place are smaller than the least multiple with all digits
  have within : |toRat z| ≤ 2 ^ 52 * 2 ^ t → 2 ^ 52 * 2 ^ t ≤ |v| →
      |r * 2 ^ t - v| ≤ |toRat z - v| := by
    intro small digits
    obtain ⟨n, towards⟩ : ∃ n : Int, |(n : ℚ) * 2 ^ t - v| = |v| - 2 ^ 52 * 2 ^ t := by
      rcases le_total 0 v with nonneg | nonpos
      · rw [abs_of_nonneg nonneg] at digits ⊢
        refine ⟨2 ^ 52, ?_⟩
        rw [abs_sub_comm, abs_of_nonneg] <;> push_cast <;> linarith
      · rw [abs_of_nonpos nonpos] at digits ⊢
        refine ⟨-2 ^ 52, ?_⟩
        rw [abs_of_nonneg] <;> push_cast <;> linarith
    have distance := abs_sub_abs_le_abs_sub v (toRat z)
    rw [abs_sub_comm] at distance
    exact (abs_sub_le_of_multiple near n).trans (by linarith)
  rcases unpacked_cases finite with ⟨s, zero⟩ | ⟨s, m, e, positive, parts, canonical⟩
  · have origin : toRat z = ((0 : Int) : ℚ) * 2 ^ t := by
      rw [toRat_of_zero zero, Int.cast_zero, zero_mul]
    rw [origin]
    exact abs_sub_le_of_multiple near 0
  · by_cases coarse : t ≤ e
    · rw [toRat_of_unpacked parts, mul_zpow_of_le _ coarse]
      exact abs_sub_le_of_multiple near _
    · have notLeast : t ≠ minExponent := by
        have least := canonical.minExponent_le
        omega
      refine within ?_ (digits.resolve_right notLeast)
      have short : (m : ℚ) ≤ 2 ^ 53 := by exact_mod_cast canonical.mantissa_lt.le
      have finer : (2 : ℚ) ^ (e + 1) ≤ 2 ^ t := zpow_le_zpow_right₀ one_le_two (by omega)
      have scale : (0 : ℚ) < 2 ^ e := zpow_pos two_pos e
      rw [toRat_of_unpacked parts, abs_mul, abs_apply, abs_of_pos scale]
      calc (m : ℚ) * 2 ^ e ≤ 2 ^ 53 * 2 ^ e := by gcongr
        _ = 2 ^ 52 * 2 ^ (e + 1) := by
          rw [zpow_add_one₀ two_ne_zero]
          ring
        _ ≤ 2 ^ 52 * 2 ^ t := by gcongr

/-- Of two points the farther one has the midpoint between it and the value. -/
theorem midpoint_le_of_nearer (order : b < a) (nearer : |a - v| ≤ |b - v|) : a + b ≤ 2 * v := by
  have squares := sq_le_sq.mpr nearer
  nlinarith only [order, squares]

theorem le_midpoint_of_nearer (order : b < a) (nearer : |b - v| ≤ |a - v|) : 2 * v ≤ a + b := by
  have squares := sq_le_sq.mpr nearer
  nlinarith only [order, squares]

namespace HalfEven

protected theorem neg (h : HalfEven v a place multiple) : HalfEven (-v) (-a) place (-multiple) := by
  have distance : |(-a) - (-v)| = |a - v| := by rw [← neg_sub', abs_neg]
  refine ⟨?_, ?_, ?_, ?_⟩
  · rw [h.eq_mul, Int.cast_neg, neg_mul]
  · rw [distance]
    exact h.near
  · rw [distance]
    exact fun tie => (h.even tie).neg
  · rw [abs_neg]
    exact h.digits

/-- A number is rounded to itself. -/
theorem exists_self (finite : x.isFinite = true) :
    ∃ place multiple, HalfEven (toRat x) (toRat x) place multiple := by
  have none : ∀ t : Int, 2 * |toRat x - toRat x| ≤ 2 ^ t ∧ 2 * |toRat x - toRat x| ≠ 2 ^ t := by
    intro t
    have positive : (0 : ℚ) < 2 ^ t := zpow_pos two_pos t
    rw [sub_self, abs_zero, mul_zero]
    exact ⟨positive.le, positive.ne⟩
  rcases unpacked_cases finite with ⟨s, zero⟩ | ⟨s, m, e, positive, parts, canonical⟩
  · refine ⟨minExponent, 0, ?_, (none _).1, fun tie => absurd tie (none _).2, .inr rfl⟩
    rw [toRat_of_zero zero, Int.cast_zero, zero_mul]
  · refine ⟨e, s.apply m, toRat_of_unpacked parts, (none _).1,
      fun tie => absurd tie (none _).2, canonical.leading.imp_left fun leading => ?_⟩
    have digits : (2 : ℚ) ^ 52 ≤ m := by exact_mod_cast leading
    have scale : (0 : ℚ) < 2 ^ e := zpow_pos two_pos e
    rw [toRat_of_unpacked parts, abs_mul, abs_apply, abs_of_pos scale]
    exact mul_le_mul_of_nonneg_right digits scale.le

theorem nearest (h : HalfEven v a place multiple) (finite : z.isFinite = true) :
    |a - v| ≤ |toRat z - v| := by
  have near := h.near
  rw [h.eq_mul] at near ⊢
  exact abs_sub_le_of_placed near h.digits finite

/-- Rounding is off by one part in `2 ^ 53` at most, or by half of the least place. -/
theorem abs_sub_le (h : HalfEven v a place multiple) :
    |a - v| ≤ |v| / 2 ^ 53 + 2 ^ minExponent / 2 := by
  have near := h.near
  have least : (0 : ℚ) < 2 ^ minExponent := zpow_pos two_pos _
  have part : 0 ≤ |v| / 2 ^ 53 := by positivity
  rcases h.digits with digits | rfl
  · linarith
  · linarith

/-- Halfway between two multiples it is an even one that is rounded to, also counted in a finer
place. -/
theorem even_of_tie (h : HalfEven v a place multiple) {u n : Int} (finer : u ≤ place)
    (eq_mul : a = n * 2 ^ u) (tie : 2 * |a - v| = 2 ^ u) : Even n := by
  have scale : (2 : ℚ) ^ u ≠ 0 := (zpow_pos two_pos u).ne'
  have same : multiple * 2 ^ (place - u).toNat = n := by
    have counted := h.eq_mul
    rw [eq_mul, mul_zpow_of_le _ finer] at counted
    exact_mod_cast (mul_right_cancel₀ scale counted).symm
  rw [← same]
  rcases eq_or_lt_of_le finer with rfl | below
  · exact (h.even tie).mul_right _
  · refine Even.mul_left (even_two.pow_of_ne_zero ?_) _
    omega

/-- Rounding keeps the order. -/
theorem toRat_le_of_le {s t p q : Int} (h : HalfEven v (toRat x) s p)
    (h' : HalfEven w (toRat y) t q) (hx : x.isFinite = true) (hy : y.isFinite = true)
    (le : v ≤ w) : toRat x ≤ toRat y := by
  by_contra above
  have order := not_le.mp above
  -- each is as near to its value as the other, so both values are halfway between them
  have low := midpoint_le_of_nearer order (h.nearest hy)
  have high := le_midpoint_of_nearer order (h'.nearest hx)
  have distance : 2 * |toRat x - v| = toRat x - toRat y := by
    rw [abs_of_nonneg] <;> linarith
  have distance' : 2 * |toRat y - w| = toRat x - toRat y := by
    rw [abs_of_nonpos] <;> linarith
  obtain ⟨u, finer, finer', least⟩ : ∃ u, u ≤ s ∧ u ≤ t ∧ (u = s ∨ u = t) :=
    ⟨min s t, min_le_left s t, min_le_right s t, min_choice s t⟩
  have scale : (0 : ℚ) < 2 ^ u := zpow_pos two_pos u
  have counted : toRat x = (p * 2 ^ (s - u).toNat : Int) * 2 ^ u := by
    rw [h.eq_mul, mul_zpow_of_le _ finer]
  have counted' : toRat y = (q * 2 ^ (t - u).toNat : Int) * 2 ^ u := by
    rw [h'.eq_mul, mul_zpow_of_le _ finer']
  generalize p * 2 ^ (s - u).toNat = n at counted
  generalize q * 2 ^ (t - u).toNat = k at counted'
  have near : toRat x - toRat y ≤ 2 ^ u := by
    rcases least with rfl | rfl
    · exact distance ▸ h.near
    · exact distance' ▸ h'.near
  have next : n = k + 1 := by
    rw [counted, counted'] at order near
    rw [← sub_mul] at near
    have apart : k < n := by exact_mod_cast lt_of_mul_lt_mul_right order scale.le
    have close : n - k ≤ 1 := by
      exact_mod_cast le_of_mul_le_mul_right (near.trans_eq (one_mul _).symm) scale
    omega
  have tie : toRat x - toRat y = 2 ^ u := by
    rw [counted, counted', next]
    push_cast
    ring
  -- neighbours are not both even
  have even := h.even_of_tie finer counted (distance.trans tie)
  rw [next, Int.even_add_one] at even
  exact even (h'.even_of_tie finer' counted' (distance'.trans tie))

/-- A value is rounded to one number only. -/
theorem toRat_eq {s t p q : Int} (h : HalfEven v (toRat x) s p) (h' : HalfEven v (toRat y) t q)
    (hx : x.isFinite = true) (hy : y.isFinite = true) : toRat x = toRat y :=
  le_antisymm (h.toRat_le_of_le h' hx hy le_rfl) (h'.toRat_le_of_le h hy hx le_rfl)

/-! ## The range -/

/-- What is rounded to has all digits as well. -/
theorem le_abs (h : HalfEven v a place multiple) :
    2 ^ 52 * 2 ^ place ≤ |a| ∨ place = minExponent := by
  refine h.digits.imp_left fun digits => ?_
  have positive : (0 : ℚ) < 2 ^ place := zpow_pos two_pos place
  have far := abs_sub_abs_le_abs_sub v a
  have near := h.near
  rw [abs_sub_comm] at far
  have counted : |a| = |multiple| * 2 ^ place := by
    rw [h.eq_mul, abs_mul, abs_of_pos positive, Int.cast_abs]
  rw [counted] at far ⊢
  have most : (2 ^ 52 - 1 : ℚ) < |multiple| := by
    refine lt_of_mul_lt_mul_right ?_ positive.le
    linarith
  have whole : (2 ^ 52 : ℚ) ≤ |multiple| := by
    have most' : (2 ^ 52 - 1 : Int) < |multiple| := by exact_mod_cast most
    exact_mod_cast (by omega : (2 ^ 52 : Int) ≤ |multiple|)
  exact mul_le_mul_of_nonneg_right whole positive.le

end HalfEven

/-- The last place of the largest number. -/
@[irreducible] def topPlace : ℚ := 2 ^ (971 : Int)

/-- What lies this far from zero is out of range: half a place beyond the largest number. -/
@[irreducible] def overflowLimit : ℚ := (2 ^ 53 - 1 / 2) * topPlace

section Places

variable {t : Int}

theorem topPlace_pos : 0 < topPlace := by
  rw [topPlace]
  exact zpow_pos two_pos _

theorem place_le_topPlace (inRange : t ≤ 971) : (2 : ℚ) ^ t ≤ topPlace := by
  rw [topPlace]
  exact zpow_le_zpow_right₀ one_le_two inRange

theorem topPlace_le_place (large : 971 < t) : 2 * topPlace ≤ 2 ^ t := by
  rw [topPlace, mul_comm, ← zpow_add_one₀ two_ne_zero]
  exact zpow_le_zpow_right₀ one_le_two (by omega)

theorem ne_minExponent_of_large (large : 971 < t) : t ≠ minExponent := by
  rintro rfl
  exact absurd large (by decide)

end Places

namespace HalfEven

/-- What is rounded to a number in range is in range. -/
theorem abs_lt_overflowLimit (h : HalfEven v a place multiple)
    (inRange : |a| ≤ (2 ^ 53 - 1) * topPlace) : |v| < overflowLimit := by
  have top := topPlace_pos
  have through := abs_sub_abs_le_abs_sub v a
  have near := h.near
  rw [abs_sub_comm] at through
  rw [overflowLimit]
  rcases lt_trichotomy place 971 with below | rfl | large
  · have finer : (2 : ℚ) ^ place < topPlace := by
      rw [topPlace]
      exact zpow_lt_zpow_right₀ one_lt_two below
    linarith
  · have same : (2 : ℚ) ^ (971 : Int) = topPlace := by rw [topPlace]
    rw [same] at near
    refine lt_of_le_of_ne (by linarith) fun limit => ?_
    -- halfway beyond the largest number, whose mantissa is odd
    have tie : 2 * |a - v| = topPlace := by linarith
    have largest : |a| = (2 ^ 53 - 1) * topPlace := by linarith
    have even := h.even (tie.trans same.symm)
    rw [h.eq_mul, same, abs_mul, abs_of_pos top, ← Int.cast_abs] at largest
    have mantissa : |multiple| = 2 ^ 53 - 1 := by
      exact_mod_cast mul_right_cancel₀ top.ne' largest
    rw [← even_abs, mantissa] at even
    exact absurd even (by decide)
  · have digits := h.le_abs.resolve_right (ne_minExponent_of_large large)
    have coarse := topPlace_le_place large
    linarith

/-- What is rounded beyond the largest number is out of range. -/
theorem overflowLimit_le_abs (h : HalfEven v a place multiple)
    (beyond : 2 ^ 53 * topPlace ≤ |a|) : overflowLimit ≤ |v| := by
  have top := topPlace_pos
  rw [overflowLimit]
  by_cases large : 971 < place
  · have digits := h.digits.resolve_right (ne_minExponent_of_large large)
    have coarse := topPlace_le_place large
    linarith
  · have finer := place_le_topPlace (not_lt.mp large)
    have through := abs_sub_abs_le_abs_sub a v
    have near := h.near
    linarith

end HalfEven

theorem overflowLimit_pos : 0 < overflowLimit := by
  rw [overflowLimit]
  exact mul_pos (by norm_num) topPlace_pos

theorem abs_toRat_le (finite : x.isFinite = true) : |toRat x| ≤ (2 ^ 53 - 1) * topPlace := by
  rcases unpacked_cases finite with ⟨s, zero⟩ | ⟨s, m, e, positive, parts, canonical⟩
  · rw [toRat_of_zero zero, abs_zero]
    exact mul_nonneg (by norm_num) topPlace_pos.le
  · have scale : (0 : ℚ) < 2 ^ e := zpow_pos two_pos e
    have short : (m : ℚ) ≤ 2 ^ 53 - 1 := by
      have fits : m + 1 ≤ 2 ^ 53 := canonical.mantissa_lt
      rw [le_sub_iff_add_le]
      exact_mod_cast fits
    have coarsest := place_le_topPlace canonical.exponent_le
    rw [toRat_of_unpacked parts, abs_mul, abs_apply, abs_of_pos scale]
    gcongr

theorem abs_toRat_lt_overflowLimit (finite : x.isFinite = true) : |toRat x| < overflowLimit := by
  obtain ⟨place, multiple, h⟩ := HalfEven.exists_self finite
  exact h.abs_lt_overflowLimit (abs_toRat_le finite)

/-! ## Packing -/

/-- Canonical parts are unpacked as they were packed. -/
theorem unpacked_packed_of_canonical {m : Nat} {e : Int} (canonical : Canonical m e)
    (positive : 0 < m) (s : Sign) :
    unpacked (packed (.finite s m e positive)) = .finite s m e positive := by
  have parts : ∀ negative, value (packed (.finite (signOf negative) m e positive)) =
      .finite negative m e := fun _ => value_pack canonical positive
  cases s with
  | negative => exact unpack_of_value (parts true) positive
  | positive => exact unpack_of_value (parts false) positive

/-- Parts whose exponent is too large are packed as infinity. -/
theorem unpacked_packed_of_large {m : Nat} {e : Int} (large : 971 < e) (positive : 0 < m)
    (s : Sign) : unpacked (packed (.finite s m e positive)) = .infinity s := by
  change UnpackedFloat.unpack .binary64 (UnpackedFloat.pack .binary64 _) = _
  have beyond : 2 ^ Format.binary64.exponentBits ≤
      (e + Format.exponentBias .binary64 +
        Format.mantissaBitsWithoutImplicit .binary64).toNat + 1 := by
    change 2048 ≤ (e + (1023 : Nat) + (52 : Nat)).toNat + 1
    omega
  simp only [UnpackedFloat.pack, if_pos beyond]
  cases s <;> rfl

/-! ## Numbers and infinities -/

/-- The number that a value is rounded to, half to even, or the infinity that stands for it. -/
inductive IsRounding (v : ℚ) (x : Float) : Prop
  | finite {place multiple : Int} : x.isFinite = true → HalfEven v (toRat x) place multiple →
      IsRounding v x
  | above : x = Float.inf → overflowLimit ≤ v → IsRounding v x
  | below : x = -Float.inf → v ≤ -overflowLimit → IsRounding v x

theorem HalfEven.exists_signed (h : HalfEven v a place multiple) (sign : Sign) :
    ∃ signed, HalfEven (sign.apply 1 * v) (sign.apply 1 * a) place signed := by
  cases sign with
  | negative =>
    simp only [Sign.apply, Int.cast_neg, Int.cast_one, neg_one_mul]
    exact ⟨_, h.neg⟩
  | positive =>
    simp only [Sign.apply, Int.cast_one, one_mul]
    exact ⟨_, h⟩

theorem apply_eq_mul (sign : Sign) (n : Nat) :
    ((sign.apply n : Int) : ℚ) = sign.apply 1 * n := by
  cases sign <;> simp [Sign.apply]

/-- Packing what a value is rounded to gives a number, or infinity if the value is out of range. -/
theorem RoundedParts.isRounding {sign : Sign} {u : UnpackedFloat} (h : RoundedParts v sign u)
    (nonneg : 0 ≤ v) : IsRounding (sign.apply 1 * v) (packed u) := by
  cases h with
  | zero rounded =>
    obtain ⟨signed, rounded'⟩ := rounded.exists_signed sign
    have zero : unpacked (packed (.zero sign)) = .zero sign := by cases sign <;> rfl
    rw [mul_zero, ← toRat_of_zero zero] at rounded'
    refine .finite ?_ rounded'
    rw [isFinite_eq_unpacked, zero]
    rfl
  | @finite _ _ n k positive rounded inRange leading =>
    by_cases large : 971 < k
    · have digits : (2 : ℚ) ^ 52 ≤ n := by
        exact_mod_cast leading.resolve_right (ne_minExponent_of_large large)
      have beyond : 2 ^ 53 * topPlace ≤ |(n : ℚ) * 2 ^ k| := by
        have top := topPlace_pos
        have coarse := topPlace_le_place large
        rw [abs_of_nonneg (by positivity)]
        calc (2 : ℚ) ^ 53 * topPlace = 2 ^ 52 * (2 * topPlace) := by ring
          _ ≤ (n : ℚ) * 2 ^ k := by gcongr
      have limit := rounded.overflowLimit_le_abs beyond
      rw [abs_of_nonneg nonneg] at limit
      have infinite := unpacked_packed_of_large large positive sign
      cases sign with
      | negative =>
        refine .below (eq_of_unpacked ?_) ?_
        · rw [infinite, unpacked_neg, unpacked_inf]
          rfl
        · simpa [Sign.apply] using limit
      | positive =>
        refine .above (eq_of_unpacked infinite) ?_
        simpa [Sign.apply] using limit
    · obtain ⟨signed, rounded'⟩ := rounded.exists_signed sign
      have parts := unpacked_packed_of_canonical (inRange (not_lt.mp large)) positive sign
      rw [← mul_assoc, ← apply_eq_mul, ← toRat_of_unpacked parts] at rounded'
      refine .finite ?_ rounded'
      rw [isFinite_eq_unpacked, parts]
      rfl

namespace IsRounding

theorem of_toRat (finite : x.isFinite = true) : IsRounding (toRat x) x := by
  obtain ⟨place, multiple, h⟩ := HalfEven.exists_self finite
  exact .finite finite h

theorem zero : IsRounding 0 0.0 := by
  rw [← toRat_zero]
  exact of_toRat rfl

theorem one : IsRounding 1 1.0 := by
  rw [← toRat_one]
  exact of_toRat rfl

theorem exists_halfEven (h : IsRounding v x) (finite : x.isFinite = true) :
    ∃ place multiple, HalfEven v (toRat x) place multiple := by
  cases h with
  | finite _ rounded => exact ⟨_, _, rounded⟩
  | above infinite beyond =>
    rw [infinite] at finite
    cases finite
  | below infinite beyond =>
    rw [infinite] at finite
    cases finite

/-- Whether a value is in range does not depend on what it is rounded to. -/
theorem isFinite_iff (h : IsRounding v x) : x.isFinite = true ↔ |v| < overflowLimit := by
  have positive := overflowLimit_pos
  cases h with
  | finite finite rounded =>
    exact iff_of_true finite (rounded.abs_lt_overflowLimit (abs_toRat_le finite))
  | above infinite beyond =>
    refine iff_of_false ?_ (not_lt.mpr (beyond.trans (le_abs_self v)))
    rw [infinite]
    exact nofun
  | below infinite beyond =>
    refine iff_of_false ?_ (not_lt.mpr ((le_neg_of_le_neg beyond).trans (neg_le_abs v)))
    rw [infinite]
    exact nofun

theorem ne_nan (h : IsRounding v x) : x ≠ Float.nan := by
  cases h with
  | finite finite rounded => exact ne_nan_of_isFinite finite
  | above infinite beyond =>
    rw [infinite]
    exact nofun
  | below infinite beyond =>
    rw [infinite]
    exact nofun

/-- Rounding is off by one part in `2 ^ 53` at most, or by half of the least place. -/
theorem abs_sub_le (h : IsRounding v x) (finite : x.isFinite = true) :
    |toRat x - v| ≤ |v| / 2 ^ 53 + 2 ^ minExponent / 2 := by
  obtain ⟨_, _, rounded⟩ := h.exists_halfEven finite
  exact rounded.abs_sub_le

theorem toRat_le_add (h : IsRounding v x) (finite : x.isFinite = true) (nonneg : 0 ≤ v) :
    toRat x ≤ v + (v / 2 ^ 53 + 2 ^ minExponent / 2) := by
  have error := h.abs_sub_le finite
  rw [abs_of_nonneg nonneg] at error
  linarith only [(abs_le.mp error).2]

theorem toRat_le_of_le (h : IsRounding v x) (h' : IsRounding w y) (hx : x.isFinite = true)
    (hy : y.isFinite = true) (le : v ≤ w) : toRat x ≤ toRat y := by
  obtain ⟨_, _, rounded⟩ := h.exists_halfEven hx
  obtain ⟨_, _, rounded'⟩ := h'.exists_halfEven hy
  exact rounded.toRat_le_of_le rounded' hx hy le

/-- A value that is one of a number is rounded to it. -/
theorem toRat_eq (h : IsRounding (toRat z) x) (finite : z.isFinite = true) :
    x.isFinite = true ∧ toRat x = toRat z := by
  have hx := h.isFinite_iff.mpr (abs_toRat_lt_overflowLimit finite)
  exact ⟨hx, le_antisymm (h.toRat_le_of_le (.of_toRat finite) hx finite le_rfl)
    ((of_toRat finite).toRat_le_of_le h finite hx le_rfl)⟩

theorem toRat_nonneg (h : IsRounding v x) (finite : x.isFinite = true) (nonneg : 0 ≤ v) :
    0 ≤ toRat x :=
  toRat_le_of_le .zero h rfl finite nonneg

theorem toRat_eq_zero (h : IsRounding 0 x) : x.isFinite = true ∧ toRat x = 0 :=
  toRat_eq (z := 0.0) h rfl

theorem neg_overflowLimit_lt (h : IsRounding v x) (notBelow : x ≠ -Float.inf) :
    -overflowLimit < v := by
  cases h with
  | finite finite rounded =>
    exact (abs_lt.mp (rounded.abs_lt_overflowLimit (abs_toRat_le finite))).1
  | above infinite beyond => linarith only [overflowLimit_pos, beyond]
  | below infinite beyond => exact absurd infinite notBelow

/-- Rounding keeps the order. -/
theorem le_of_le (h : IsRounding v x) (h' : IsRounding w y) (le : v ≤ w) : x ≤ y := by
  cases h' with
  | above infinite beyond =>
    rw [infinite]
    exact le_inf h.ne_nan
  | below infinite beyond =>
    have lowest : x = -Float.inf := by
      by_contra notBelow
      exact absurd (h.neg_overflowLimit_lt notBelow) (not_lt.mpr (le.trans beyond))
    rw [infinite, lowest]
    exact le_self (by decide)
  | finite hy rounded' =>
    have inRange := (abs_lt.mp (rounded'.abs_lt_overflowLimit (abs_toRat_le hy))).2
    cases h with
    | above infinite beyond => exact absurd (beyond.trans le) (not_le.mpr inRange)
    | below infinite beyond =>
      rw [infinite]
      exact neg_inf_le (ne_nan_of_isFinite hy)
    | finite hx rounded =>
      exact le_of_toRat_le hx hy (rounded.toRat_le_of_le rounded' hx hy le)

theorem nonneg (h : IsRounding v x) (nonneg : 0 ≤ v) : 0.0 ≤ x := IsRounding.zero.le_of_le h nonneg

end IsRounding

/-! ## Values that need no finer place -/

/-- A value and what it is rounded to: itself, or a multiple of a place that is at most half of it
away. The value then has all digits of a number in front of that place. -/
inductive Rounded (v a : ℚ) : Prop
  | same : a = v → Rounded v a
  | placed (t r : Int) : a = r * 2 ^ t → |a - v| ≤ 2 ^ t / 2 → 2 ^ 52 * 2 ^ t ≤ |v| → Rounded v a

/-- Values below this bound are in the range of the numbers. -/
@[irreducible] def overflowBound : ℚ := 2 ^ 1023

theorem overflowBound_le : overflowBound ≤ overflowLimit := by
  have split : (2 : ℚ) ^ 1023 = 2 ^ 52 * 2 ^ (971 : Int) := by
    rw [← zpow_natCast, ← two_zpow_add]
    rfl
  have top := topPlace_pos
  rw [overflowLimit, overflowBound, split, ← topPlace]
  linarith

/-- A value that is a multiple of the least place is rounded in a place where it has all digits, or
not at all. -/
theorem HalfEven.rounded (h : HalfEven v a place multiple)
    (whole : ∃ n : Int, v = n * 2 ^ minExponent) : Rounded v a := by
  have near := h.near
  have half : |a - v| ≤ 2 ^ place / 2 := by linarith
  rcases h.digits with digits | rfl
  · exact .placed place multiple h.eq_mul half digits
  · obtain ⟨n, rfl⟩ := whole
    rw [h.eq_mul] at near ⊢
    have nearest := abs_sub_le_of_multiple near n
    rw [sub_self, abs_zero] at nearest
    exact .same (sub_eq_zero.mp (abs_nonpos_iff.mp nearest))

namespace Rounded

/-- Rounding is off by one part in `2 ^ 53` at most. -/
theorem abs_sub_le (h : Rounded v a) : |a - v| ≤ |v| / 2 ^ 53 := by
  cases h with
  | same same =>
    rw [same, sub_self, abs_zero]
    positivity
  | placed t r multiple near digits =>
    calc |a - v| ≤ 2 ^ t / 2 := near
      _ = 2 ^ 52 * 2 ^ t / 2 ^ 53 := by ring
      _ ≤ |v| / 2 ^ 53 := by gcongr

/-- No number is nearer than the one that is rounded to. -/
theorem nearest (h : Rounded v a) (finite : z.isFinite = true) : |a - v| ≤ |toRat z - v| := by
  cases h with
  | same same =>
    rw [same, sub_self, abs_zero]
    exact abs_nonneg _
  | placed t r multiple near digits =>
    rw [multiple] at near ⊢
    exact abs_sub_le_of_placed (by linarith) (.inl digits) finite

end Rounded

end CurveArea.Binary64
