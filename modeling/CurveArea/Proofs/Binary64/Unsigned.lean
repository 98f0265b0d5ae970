import CurveArea.Proofs.Binary64.Order
import CurveArea.Proofs.Binary64.Parts

/-!
# Unsigned numbers

Numbers without a sign are those that equal their magnitude: NaN, infinity, zero and the positive
numbers, but not the negative zero. They are closed under addition, multiplication and division, and
the difference of a number and a smaller one is among them. What can be said about the larger of two
such numbers is said about both.
-/

namespace CurveArea.Binary64

open Float.Model (UnpackedFloat Format)
open Float.Model.UnpackedFloat (Sign Accuracy)

variable {x y : Float} {spec : Format} {u v : UnpackedFloat}

/-- Not negative, and not a negative zero. NaN has no sign. -/
def UnsignedParts (u : UnpackedFloat) : Prop := u.abs = u

/-- Equal to its own magnitude. -/
def Unsigned (x : Float) : Prop := UnsignedParts (unpacked x)

theorem Unsigned.abs_eq (h : Unsigned x) : x.abs = x := by
  apply eq_of_unpacked
  rw [unpacked_abs]
  exact h

theorem unsigned_abs (x : Float) : Unsigned x.abs := by
  rw [Unsigned, unpacked_abs]
  cases unpacked x <;> rfl

theorem unsigned_zero : Unsigned 0.0 := rfl

theorem unsigned_one : Unsigned (Float.ofBits 0x3FF0000000000000) := by
  rw [Unsigned, UnsignedParts]
  rfl

theorem UnsignedParts.packed {u : UnpackedFloat} (h : UnsignedParts u) : Unsigned (packed u) := by
  have magnitude : u.abs = mapSign (fun _ => .positive) u := abs_eq_mapSign u
  rw [Unsigned, UnsignedParts, abs_eq_mapSign, ← unpacked_packed_mapSign, ← magnitude, h]

/-- A positive result is rounded to an unsigned number. -/
theorem unsigned_roundWithAccuracy (spec : Format) (mantissa : Nat) (exponent : Int)
    (accuracy : Accuracy) :
    UnsignedParts (UnpackedFloat.roundWithAccuracy spec .positive mantissa exponent accuracy) := by
  rw [UnsignedParts, abs_eq_mapSign]
  exact (roundWithAccuracy_mapSign (fun _ => .positive) spec .positive _ _ _).symm

theorem unsigned_normalize (spec : Format) {n : Int} (nonneg : 0 ≤ n) (exponent : Int) :
    UnsignedParts (UnpackedFloat.normalize spec n exponent .positive) := by
  rcases Int.lt_or_eq_of_le nonneg with positive | rfl
  · have above : compare n 0 = .gt := Int.compare_eq_gt.mpr positive
    simp only [UnpackedFloat.normalize, above]
    exact unsigned_roundWithAccuracy spec _ _ _
  · rfl

/-- Parts without a sign have the positive one. -/
theorem UnsignedParts.cases (h : UnsignedParts u) :
    u = .notANumber ∨ u = .infinity .positive ∨ u = .zero .positive ∨
      ∃ m e positive, u = .finite .positive m e positive := by
  cases u with
  | notANumber => exact .inl rfl
  | infinity s =>
    cases s
    · cases h
    · exact .inr (.inl rfl)
  | zero s =>
    cases s
    · cases h
    · exact .inr (.inr (.inl rfl))
  | finite s m e positive =>
    cases s
    · cases h
    · exact .inr (.inr (.inr ⟨m, e, positive, rfl⟩))

theorem UnsignedParts.add (hu : UnsignedParts u) (hv : UnsignedParts v) :
    UnsignedParts (UnpackedFloat.add spec u v) := by
  obtain rfl | rfl | rfl | ⟨m, e, positive, rfl⟩ := hu.cases <;>
    obtain rfl | rfl | rfl | ⟨n, k, positive', rfl⟩ := hv.cases
  case inr.inr.inr.inr.inr.inr =>
    exact unsigned_normalize spec (Int.add_nonneg (Int.natCast_nonneg _) (Int.natCast_nonneg _)) _
  all_goals rfl

theorem UnsignedParts.mul (hu : UnsignedParts u) (hv : UnsignedParts v) :
    UnsignedParts (UnpackedFloat.mul spec u v) := by
  obtain rfl | rfl | rfl | ⟨m, e, positive, rfl⟩ := hu.cases <;>
    obtain rfl | rfl | rfl | ⟨n, k, positive', rfl⟩ := hv.cases
  case inr.inr.inr.inr.inr.inr => exact unsigned_roundWithAccuracy spec _ _ _
  all_goals rfl

theorem UnsignedParts.div (hu : UnsignedParts u) (hv : UnsignedParts v) :
    UnsignedParts (UnpackedFloat.div spec u v) := by
  obtain rfl | rfl | rfl | ⟨m, e, positive, rfl⟩ := hu.cases <;>
    obtain rfl | rfl | rfl | ⟨n, k, positive', rfl⟩ := hv.cases
  case inr.inr.inr.inr.inr.inr => exact unsigned_roundWithAccuracy spec _ _ _
  all_goals rfl

theorem Unsigned.add (hx : Unsigned x) (hy : Unsigned y) : Unsigned (x + y) :=
  (UnsignedParts.add hx hy).packed

theorem Unsigned.mul (hx : Unsigned x) (hy : Unsigned y) : Unsigned (x * y) :=
  (UnsignedParts.mul hx hy).packed

theorem Unsigned.div (hx : Unsigned x) (hy : Unsigned y) : Unsigned (x / y) :=
  (UnsignedParts.div hx hy).packed

/-- Zero times a finite number without a sign has none either. -/
theorem Unsigned.zero_mul (h : Unsigned x) (finite : x.isFinite = true) : 0.0 * x = 0.0 := by
  rw [isFinite_eq_unpacked] at finite
  rw [mul_eq_packed]
  obtain special | infinity | zero | ⟨m, e, positive, parts⟩ := UnsignedParts.cases h
  · rw [special] at finite
    cases finite
  · rw [infinity] at finite
    cases finite
  · rw [zero]
    rfl
  · rw [parts]
    rfl

theorem unsigned_ofNat (n : Nat) : Unsigned (Float.ofNat n) := by
  change Unsigned (Float.ofScientific n false 0)
  rw [Float.ofScientific]
  split
  · -- up to 53 bits the word is converted, above that the digits are read as a decimal
    have whole : Unsigned n.toUInt64.toFloat :=
      (unsigned_normalize .binary64 (Int.natCast_nonneg _) _).packed
    have one : Unsigned Float.exactlyRepresentablePowersOfTen[0] := unsigned_one
    exact whole.mul one
  · refine UnsignedParts.packed (u := UnpackedFloat.ofScientific .binary64 n 0) ?_
    rw [UnpackedFloat.ofScientific]
    split
    · rfl
    · have width : (2 : Int) ^ Format.binary64.exponentBits = 2048 := rfl
      rw [width, if_neg (by omega), if_neg (by omega), if_pos (Int.le_refl 0)]
      exact UnsignedParts.mul rfl rfl

/-- The parts of a number are canonical. -/
theorem canonical_of_unpacked {s : Sign} {m : Nat} {e : Int} {positive : 0 < m}
    (h : unpacked x = .finite s m e positive) : Canonical m e := by
  have finite : x.isFinite = true := by
    rw [isFinite_eq_unpacked, h]
    rfl
  obtain ⟨negative, mantissa, exponent, parts⟩ := exists_value_of_isFinite finite
  rcases Nat.eq_zero_or_pos mantissa with rfl | positive'
  · rcases eq_zero_of_value parts with rfl | rfl <;> cases h
  · have opened : unpacked x = _ := unpack_of_value parts positive'
    rw [h] at opened
    cases opened
    exact (parts_of_value parts).1

/-- A finite number is a zero or has a sign, a mantissa and an exponent. -/
theorem unpacked_cases (h : x.isFinite = true) :
    (∃ s, unpacked x = .zero s) ∨
      ∃ s m e, ∃ positive : 0 < m, unpacked x = .finite s m e positive ∧ Canonical m e := by
  rw [isFinite_eq_unpacked] at h
  cases parts : unpacked x with
  | notANumber =>
    rw [parts] at h
    cases h
  | infinity s =>
    rw [parts] at h
    cases h
  | zero s => exact .inl ⟨s, rfl⟩
  | finite s m e positive => exact .inr ⟨s, m, e, positive, rfl, canonical_of_unpacked parts⟩

/-- Canonical parts compare like the numbers that they make up over a common exponent. -/
theorem shifted_lt_of_compare {m n : Nat} {e k : Int} (low : Canonical m e) (high : Canonical n k)
    (h : (compare e k).then (compare m n) = .lt) :
    m <<< (e - min e k).toNat < n <<< (k - min e k).toNat := by
  rw [Ordering.then_eq_lt, Int.compare_eq_lt, Int.compare_eq_eq, Nat.compare_eq_lt] at h
  rcases h with below | ⟨rfl, below⟩
  · obtain ⟨shift, steps⟩ : ∃ shift, (k - min e k).toNat = shift + 1 :=
      ⟨(k - e).toNat - 1, by omega⟩
    have still : (e - min e k).toNat = 0 := by omega
    -- above the least exponent the leading bit is set, and one step up outweighs any mantissa
    have leading : leadingBit ≤ n := by
      refine high.leading.resolve_right ?_
      have least := low.minExponent_le
      omega
    rw [steps, still, Nat.shiftLeft_zero, Nat.shiftLeft_eq, Nat.pow_succ]
    have mantissa_lt := low.mantissa_lt
    have grown := Nat.le_mul_of_pos_right n (Nat.two_pow_pos shift)
    rw [← Nat.mul_assoc]
    omega
  · simpa using below

/-- What is taken from something larger leaves nothing negative. -/
theorem UnsignedParts.sub_of_lt (finite : u.isFinite = true) (finite' : v.isFinite = true)
    (hu : ∀ s m e positive, u = .finite s m e positive → Canonical m e)
    (hv : ∀ s m e positive, v = .finite s m e positive → Canonical m e)
    (h : u.compare v = some .lt) : UnsignedParts (UnpackedFloat.sub spec v u) := by
  cases u with
  | notANumber => cases finite
  | infinity s => cases finite
  | zero s => cases v with
    | notANumber => cases finite'
    | infinity t => cases finite'
    | zero t => cases h
    | finite t n k positive' => cases t with
      | negative => cases h
      | positive => rfl
  | finite s m e positive => cases v with
    | notANumber => cases finite'
    | infinity t => cases finite'
    | zero t => cases s with
      | negative => rfl
      | positive => cases h
    | finite t n k positive' =>
      have low := hu s m e positive rfl
      have high := hv t n k positive' rfl
      apply unsigned_normalize
      cases s with
      | negative => cases t with
        | negative =>
          -- of two negative numbers the smaller one has the larger magnitude
          have above : (compare k e).then (compare n m) = .lt := by
            rw [then_compare_swap]
            simpa [UnpackedFloat.compare] using h
          have shifted := shifted_lt_of_compare high low above
          simp only [Sign.apply]
          omega
        | positive =>
          simp only [Sign.apply, Int.sub_neg]
          exact Int.add_nonneg (Int.natCast_nonneg _) (Int.natCast_nonneg _)
      | positive => cases t with
        | negative => cases h
        | positive =>
          have below := shifted_lt_of_compare low high (by simpa [UnpackedFloat.compare] using h)
          rw [Int.min_comm] at below
          simp only [Sign.apply]
          omega

/-- The difference of a finite number and a smaller one has no sign. -/
theorem unsigned_sub_of_lt (hx : x.isFinite = true) (hy : y.isFinite = true) (h : x < y) :
    Unsigned (y - x) :=
  (UnsignedParts.sub_of_lt hx hy (fun _ _ _ _ => canonical_of_unpacked)
    (fun _ _ _ _ => canonical_of_unpacked) (lt_iff_compare.mp h)).packed

/-- Infinity is the only unsigned one that is neither finite nor NaN. -/
theorem Unsigned.eq_inf (h : Unsigned x) (infinite : x.isFinite = false) (number : x ≠ Float.nan) :
    x = Float.inf := by
  apply eq_of_unpacked
  rw [unpacked_inf]
  rw [Ne, eq_nan_iff] at number
  rw [isFinite_eq_unpacked] at infinite
  obtain special | infinity | zero | ⟨m, e, positive, finite⟩ := UnsignedParts.cases h
  · exact absurd special number
  · exact infinity
  · rw [zero] at infinite
    cases infinite
  · rw [finite] at infinite
    cases infinite

/-- Zero is the least unsigned number. -/
theorem Unsigned.eq_zero (h : Unsigned x) (below : x ≤ 0.0) : x = 0.0 := by
  have zero : unpacked 0.0 = .zero .positive := rfl
  rw [le_iff_compare, zero] at below
  apply eq_of_unpacked
  rw [zero]
  obtain special | infinity | isZero | ⟨m, e, positive, finite⟩ := UnsignedParts.cases h
  · rw [special] at below
    rcases below with below | below <;> cases below
  · rw [infinity] at below
    rcases below with below | below <;> cases below
  · exact isZero
  · rw [finite] at below
    rcases below with below | below <;> cases below

theorem Unsigned.beq_zero_iff (h : Unsigned x) : (x == 0.0) = true ↔ x = 0.0 := by
  constructor
  · intro same
    obtain ⟨-, -, zero | ⟨zero, -⟩ | ⟨rfl, -⟩⟩ := Float.beq_iff_ne_nan_and_eq.mp same
    · exact zero
    · exact zero
    · cases h
  · rintro rfl
    rfl

/-- Equal numbers without a sign are the same. -/
theorem Unsigned.eq_of_beq (hx : Unsigned x) (hy : Unsigned y) (same : (x == y) = true) :
    x = y := by
  obtain ⟨-, -, same | ⟨-, rfl⟩ | ⟨rfl, -⟩⟩ := Float.beq_iff_ne_nan_and_eq.mp same
  · exact same
  · cases hy
  · cases hx

/-- What is at most an unsigned number is below it or the same. -/
theorem Unsigned.lt_iff (hx : Unsigned x) (hy : Unsigned y) : x < y ↔ x ≤ y ∧ x ≠ y := by
  constructor
  · intro below
    refine ⟨Binary64.le_of_lt below, ?_⟩
    rintro rfl
    have number : x ≠ Float.nan := by
      rintro rfl
      exact not_lt_nan _ below
    exact (not_lt_iff_le number number).mpr (le_self number) below
  · rintro ⟨atMost, other⟩
    have number : x ≠ Float.nan := by
      rintro rfl
      exact not_nan_le _ atMost
    have number' : y ≠ Float.nan := by
      rintro rfl
      exact not_le_nan _ atMost
    by_contra notBelow
    have atLeast := (not_lt_iff_le number number').mp notBelow
    exact other (hx.eq_of_beq hy (beq_of_le_of_le atMost atLeast))

theorem Unsigned.nonneg (h : Unsigned x) (number : x ≠ Float.nan) : 0.0 ≤ x := by
  rw [← not_lt_iff_le number (by decide)]
  intro below
  rw [h.eq_zero (Binary64.le_of_lt below)] at below
  exact absurd below (by decide)

/-! ## The larger of two unsigned numbers -/

theorem Unsigned.larger (hx : Unsigned x) (hy : Unsigned y) : Unsigned (Scalar.larger x y) := by
  rcases larger_eq_or x y with same | same
  · rwa [same]
  · rwa [same]

theorem larger_nan_left (x : Float) : Scalar.larger Float.nan x = x := by
  rw [Scalar.larger, if_neg (not_nan_lt x), if_neg (not_nan_le Float.nan)]

theorem larger_nan_right (x : Float) : Scalar.larger x Float.nan = x := by
  by_cases number : x = Float.nan
  · rw [number, larger_nan_left]
  · rw [Scalar.larger, if_neg (not_lt_nan x), if_pos (le_self number)]

/-- Which of two unsigned numbers comes first does not matter, NaN included. -/
theorem Unsigned.larger_comm (hx : Unsigned x) (hy : Unsigned y) :
    Scalar.larger x y = Scalar.larger y x := by
  by_cases number : x = Float.nan
  · rw [number, larger_nan_left, larger_nan_right]
  · by_cases number' : y = Float.nan
    · rw [number', larger_nan_left, larger_nan_right]
    · obtain ⟨left, right⟩ := le_larger number number'
      obtain ⟨left', right'⟩ := le_larger number' number
      refine (hx.larger hy).eq_of_beq (hy.larger hx) (beq_of_le_of_le ?_ ?_)
      · rcases larger_eq_or x y with same | same
        · rwa [same]
        · rwa [same]
      · rcases larger_eq_or y x with same | same
        · rwa [same]
        · rwa [same]

/-- The larger of two unsigned numbers is zero only if both are. -/
theorem larger_eq_zero_iff (hx : Unsigned x) (hy : Unsigned y) (number : x ≠ Float.nan)
    (number' : y ≠ Float.nan) : Scalar.larger x y = 0.0 ↔ x = 0.0 ∧ y = 0.0 := by
  constructor
  · intro zero
    have ⟨left, right⟩ := le_larger number number'
    rw [zero] at left right
    exact ⟨hx.eq_zero left, hy.eq_zero right⟩
  · rintro ⟨rfl, rfl⟩
    exact (larger_eq_or 0.0 0.0).elim id id

/-- The larger of two unsigned numbers that are not both finite is infinite. -/
theorem larger_eq_inf (hx : Unsigned x) (hy : Unsigned y) (number : x ≠ Float.nan)
    (number' : y ≠ Float.nan) (infinite : x.isFinite = false ∨ y.isFinite = false) :
    Scalar.larger x y = Float.inf := by
  have ⟨left, right⟩ := le_larger number number'
  rcases infinite with infinite | infinite
  · rw [hx.eq_inf infinite number] at left ⊢
    exact eq_inf_of_inf_le left
  · rw [hy.eq_inf infinite number'] at right ⊢
    exact eq_inf_of_inf_le right

end CurveArea.Binary64
