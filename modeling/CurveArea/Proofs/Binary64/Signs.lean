import CurveArea.Binary64
import Mathlib

/-!
# Signs in the rounded arithmetic

Rounding to nearest does not look at the sign, so an operation on numbers with opposite signs gives
the opposite result. The exception are the zeros: a sum or difference that cancels is a positive
zero in either direction. Numbers that differ in their sign only, or are both zero, are called
mirrored. The arithmetic keeps numbers mirrored, and mirrored numbers have the same magnitude.
-/

namespace CurveArea.Binary64

open Float.Model (UnpackedFloat Format)
open Float.Model.UnpackedFloat (Sign Accuracy packComponents)

/-- A number as core's arithmetic takes it apart. -/
def unpacked (x : Float) : UnpackedFloat := x.toModel.unpack

/-- The number that core's arithmetic makes of a result. -/
def packed (u : UnpackedFloat) : Float := ⟨Float.Model.pack u⟩

theorem packed_unpacked (x : Float) : packed (unpacked x) = x := Float.ofBits_toBits x

theorem eq_of_unpacked {x y : Float} (h : unpacked x = unpacked y) : x = y := by
  rw [← packed_unpacked x, h, packed_unpacked]

theorem add_eq_packed (x y : Float) :
    x + y = packed (UnpackedFloat.add .binary64 (unpacked x) (unpacked y)) := rfl

theorem sub_eq_packed (x y : Float) :
    x - y = packed (UnpackedFloat.sub .binary64 (unpacked x) (unpacked y)) := rfl

theorem mul_eq_packed (x y : Float) :
    x * y = packed (UnpackedFloat.mul .binary64 (unpacked x) (unpacked y)) := rfl

theorem div_eq_packed (x y : Float) :
    x / y = packed (UnpackedFloat.div .binary64 (unpacked x) (unpacked y)) := rfl

theorem neg_eq_packed (x : Float) : -x = packed (unpacked x).neg := rfl

theorem abs_eq_packed (x : Float) : x.abs = packed (unpacked x).abs := rfl

/-- A result with its sign changed, whatever kind of number it is. -/
def mapSign (f : Sign → Sign) : UnpackedFloat → UnpackedFloat
  | .notANumber => .notANumber
  | .infinity sign => .infinity (f sign)
  | .zero sign => .zero (f sign)
  | .finite sign mantissa exponent positive => .finite (f sign) mantissa exponent positive

theorem neg_eq_mapSign (u : UnpackedFloat) : u.neg = mapSign (- ·) u := by cases u <;> rfl

theorem abs_eq_mapSign (u : UnpackedFloat) : u.abs = mapSign (fun _ => .positive) u := by
  cases u <;> rfl

theorem unpack_packComponents (f : Sign → Sign) (sign : Sign) (exponent : BitVec 11)
    (mantissa : BitVec 52) :
    UnpackedFloat.unpack .binary64 (packComponents .binary64 (f sign) exponent mantissa) =
      mapSign f (UnpackedFloat.unpack .binary64
        (packComponents .binary64 sign exponent mantissa)) := by
  simp only [UnpackedFloat.unpack, UnpackedFloat.unpackExponent_packComponents,
    UnpackedFloat.unpackMantissa_packComponents, UnpackedFloat.unpackSign_packComponents,
    UnpackedFloat.Sign.ofBitVec_toBitVec]
  split
  · split <;> rfl
  · split
    · split <;> rfl
    · rfl

/-- Packing and unpacking, where results out of range become infinite, keep the sign apart. -/
theorem unpacked_packed_mapSign (f : Sign → Sign) (u : UnpackedFloat) :
    unpacked (packed (mapSign f u)) = mapSign f (unpacked (packed u)) := by
  change UnpackedFloat.unpack .binary64 (UnpackedFloat.pack .binary64 (mapSign f u)) =
    mapSign f (UnpackedFloat.unpack .binary64 (UnpackedFloat.pack .binary64 u))
  cases u with
  | notANumber =>
    simp only [mapSign, UnpackedFloat.pack, UnpackedFloat.unpack_packedNaN]
  | infinity sign => exact unpack_packComponents f sign _ _
  | zero sign => exact unpack_packComponents f sign _ _
  | finite sign mantissa exponent positive =>
    simp only [mapSign, UnpackedFloat.pack]
    split
    · exact unpack_packComponents f sign _ _
    · split
      · exact unpack_packComponents f sign _ _
      · exact unpack_packComponents f sign _ _

@[simp] theorem unpacked_neg (x : Float) : unpacked (-x) = (unpacked x).neg := by
  rw [neg_eq_packed, neg_eq_mapSign, unpacked_packed_mapSign, packed_unpacked]

@[simp] theorem unpacked_abs (x : Float) : unpacked x.abs = (unpacked x).abs := by
  rw [abs_eq_packed, abs_eq_mapSign, unpacked_packed_mapSign, packed_unpacked]

/-! ## Signs in the arithmetic -/

theorem sign_neg_neg (sign : Sign) : - -sign = sign := by cases sign <;> rfl

theorem apply_neg (sign : Sign) (n : Int) : (-sign).apply n = -sign.apply n := by
  cases sign
  · exact (Int.neg_neg n).symm
  · rfl

theorem neg_neg_unpacked (u : UnpackedFloat) : u.neg.neg = u := by
  cases u <;> simp [UnpackedFloat.neg, sign_neg_neg]

theorem sub_eq_add_neg_unpacked (spec : Format) (u v : UnpackedFloat) :
    UnpackedFloat.sub spec u v = UnpackedFloat.add spec u v.neg := by
  cases u <;> cases v <;>
    simp [UnpackedFloat.sub, UnpackedFloat.add, UnpackedFloat.neg, apply_neg, Int.sub_eq_add_neg]

theorem add_comm_unpacked (spec : Format) (u v : UnpackedFloat) :
    UnpackedFloat.add spec u v = UnpackedFloat.add spec v u := by
  cases u with
  | notANumber => cases v <;> rfl
  | infinity s => cases v with
    | infinity t => cases s <;> cases t <;> rfl
    | _ => rfl
  | zero s => cases v with
    | zero t => cases s <;> cases t <;> rfl
    | _ => rfl
  | finite s m e h => cases v with
    | finite t n k h' => simp only [UnpackedFloat.add, Int.min_comm e k, Int.add_comm]
    | _ => rfl

protected theorem sub_eq_add_neg (x y : Float) : x - y = x + -y := by
  rw [sub_eq_packed, add_eq_packed, unpacked_neg, sub_eq_add_neg_unpacked]

protected theorem add_comm (x y : Float) : x + y = y + x := by
  rw [add_eq_packed, add_eq_packed, add_comm_unpacked]

protected theorem neg_neg (x : Float) : - -x = x := by
  apply eq_of_unpacked
  rw [unpacked_neg, unpacked_neg, neg_neg_unpacked]

/-- Rounding does not look at the sign. -/
theorem roundWithAccuracy_mapSign (f : Sign → Sign) (spec : Format) (sign : Sign) (mantissa : Nat)
    (exponent : Int) (accuracy : Accuracy) :
    UnpackedFloat.roundWithAccuracy spec (f sign) mantissa exponent accuracy =
      mapSign f (UnpackedFloat.roundWithAccuracy spec sign mantissa exponent accuracy) := by
  simp only [UnpackedFloat.roundWithAccuracy]
  split <;> rfl

theorem neg_mul_unpacked (spec : Format) (u v : UnpackedFloat) :
    UnpackedFloat.mul spec u.neg v = (UnpackedFloat.mul spec u v).neg := by
  have flip : ∀ s t : Sign, -s * t = -(s * t) := by
    intro s t
    cases s <;> cases t <;> rfl
  cases u <;> cases v <;>
    simp [UnpackedFloat.mul, UnpackedFloat.neg, flip]
  rw [roundWithAccuracy_mapSign, ← neg_eq_mapSign]
  rfl

theorem neg_div_unpacked (spec : Format) (u v : UnpackedFloat) :
    UnpackedFloat.div spec u.neg v = (UnpackedFloat.div spec u v).neg := by
  have flip : ∀ s t : Sign, -s / t = -(s / t) := by
    intro s t
    cases s <;> cases t <;> rfl
  cases u <;> cases v <;>
    simp [UnpackedFloat.div, UnpackedFloat.neg, flip]
  rw [roundWithAccuracy_mapSign, ← neg_eq_mapSign]
  rfl

/-! ## Mirrored numbers -/

/-- Differing in the sign only, or both zero. -/
def MirroredParts (u v : UnpackedFloat) : Prop :=
  v = u.neg ∨ ∃ s t, u = .zero s ∧ v = .zero t

/-- Numbers that differ in the sign only, or are both zero. -/
def Mirrored (x y : Float) : Prop := MirroredParts (unpacked x) (unpacked y)

theorem MirroredParts.packed {u v : UnpackedFloat} (h : MirroredParts u v) :
    Mirrored (packed u) (packed v) := by
  rcases h with rfl | ⟨s, t, rfl, rfl⟩
  · refine .inl ?_
    rw [neg_eq_mapSign, neg_eq_mapSign, unpacked_packed_mapSign]
  · refine .inr ⟨s, t, ?_, ?_⟩
    · cases s <;> rfl
    · cases t <;> rfl

/-- A sum of two mantissas and the sum of their opposites are rounded alike; the sum zero has one
sign in both. -/
theorem mirrored_normalize (spec : Format) (n : Int) (exponent : Int) :
    MirroredParts (UnpackedFloat.normalize spec n exponent .positive)
      (UnpackedFloat.normalize spec (-n) exponent .positive) := by
  have flip : ∀ (sign : Sign) (m : Nat), UnpackedFloat.round spec (-sign) m exponent =
      (UnpackedFloat.round spec sign m exponent).neg := by
    intro sign m
    rw [neg_eq_mapSign]
    exact roundWithAccuracy_mapSign (- ·) spec sign _ _ _
  rcases Int.lt_trichotomy n 0 with negative | rfl | positive
  · left
    have low : compare n 0 = .lt := Int.compare_eq_lt.mpr negative
    have high : compare (-n) 0 = .gt := Int.compare_eq_gt.mpr (by omega)
    simp only [UnpackedFloat.normalize, low, high]
    exact flip .negative _
  · exact .inr ⟨.positive, .positive, rfl, rfl⟩
  · left
    have high : compare n 0 = .gt := Int.compare_eq_gt.mpr positive
    have low : compare (-n) 0 = .lt := Int.compare_eq_lt.mpr (by omega)
    simp only [UnpackedFloat.normalize, low, high, Int.neg_neg]
    exact flip .positive _

theorem mirroredParts_neg (u : UnpackedFloat) : MirroredParts u u.neg := .inl rfl

theorem exists_add_zero (spec : Format) (s t : Sign) :
    ∃ sign, UnpackedFloat.add spec (.zero s) (.zero t) = .zero sign := by
  cases s <;> cases t <;> exact ⟨_, rfl⟩

theorem mirrored_zero_add (spec : Format) (s t : Sign) (u : UnpackedFloat) :
    MirroredParts (UnpackedFloat.add spec (.zero s) u)
      (UnpackedFloat.add spec (.zero t) u.neg) := by
  cases u with
  | zero r =>
    obtain ⟨left, first⟩ := exists_add_zero spec s r
    obtain ⟨right, second⟩ := exists_add_zero spec t (-r)
    exact .inr ⟨left, right, first, second⟩
  | _ => exact mirroredParts_neg _

theorem mirrored_add_neg (spec : Format) (u v : UnpackedFloat) :
    MirroredParts (UnpackedFloat.add spec u v) (UnpackedFloat.add spec u.neg v.neg) := by
  cases u with
  | notANumber => exact mirroredParts_neg _
  | infinity s =>
    left
    cases v with
    | infinity t => cases s <;> cases t <;> rfl
    | _ => rfl
  | zero s => exact mirrored_zero_add spec s (-s) v
  | finite s m e h =>
    cases v with
    | finite t n k h' =>
      simp only [UnpackedFloat.add, UnpackedFloat.neg, apply_neg, ← Int.neg_add]
      exact mirrored_normalize spec _ _
    | _ => exact mirroredParts_neg _

/-- Rounded addition keeps numbers mirrored: what is not negated is a zero. -/
theorem MirroredParts.add {spec : Format} {u v u' v' : UnpackedFloat} (h : MirroredParts u v)
    (h' : MirroredParts u' v') :
    MirroredParts (UnpackedFloat.add spec u u') (UnpackedFloat.add spec v v') := by
  rcases h with rfl | ⟨s, t, rfl, rfl⟩
  · rcases h' with rfl | ⟨s', t', rfl, rfl⟩
    · exact mirrored_add_neg spec u u'
    · rw [add_comm_unpacked spec u, add_comm_unpacked spec u.neg]
      exact mirrored_zero_add spec s' t' u
  · rcases h' with rfl | ⟨s', t', rfl, rfl⟩
    · exact mirrored_zero_add spec s t u'
    · obtain ⟨left, first⟩ := exists_add_zero spec s s'
      obtain ⟨right, second⟩ := exists_add_zero spec t t'
      exact .inr ⟨left, right, first, second⟩

variable {x y x' y' : Float}

theorem mirrored_neg (x : Float) : Mirrored x (-x) := by
  rw [Mirrored, unpacked_neg]
  exact mirroredParts_neg _

theorem mirrored_zero : Mirrored 0.0 0.0 := .inr ⟨.positive, .positive, rfl, rfl⟩

theorem mirrored_neg_zero : Mirrored (-0.0) (-0.0) := .inr ⟨.negative, .negative, rfl, rfl⟩

theorem Mirrored.neg (h : Mirrored x y) : Mirrored (-x) (-y) := by
  rw [Mirrored, unpacked_neg, unpacked_neg]
  rcases h with same | ⟨s, t, first, second⟩
  · rw [same]
    exact mirroredParts_neg _
  · rw [first, second]
    exact .inr ⟨-s, -t, rfl, rfl⟩

theorem Mirrored.add (h : Mirrored x y) (h' : Mirrored x' y') : Mirrored (x + x') (y + y') :=
  (MirroredParts.add h h').packed

theorem Mirrored.sub (h : Mirrored x y) (h' : Mirrored x' y') : Mirrored (x - x') (y - y') := by
  rw [Binary64.sub_eq_add_neg, Binary64.sub_eq_add_neg]
  exact h.add h'.neg

/-- A difference taken the other way round is mirrored. -/
theorem mirrored_sub (x y : Float) : Mirrored (x - y) (y - x) := by
  rw [Binary64.sub_eq_add_neg, Binary64.sub_eq_add_neg, Binary64.add_comm y]
  have swapped := (mirrored_neg x).add (mirrored_neg (-y))
  rwa [Binary64.neg_neg] at swapped

theorem Mirrored.mul (h : Mirrored x y) (z : Float) : Mirrored (x * z) (y * z) := by
  rw [mul_eq_packed, mul_eq_packed]
  refine MirroredParts.packed ?_
  rcases h with same | ⟨s, t, first, second⟩
  · rw [same, neg_mul_unpacked]
    exact mirroredParts_neg _
  · rw [first, second]
    cases unpacked z with
    | notANumber => exact mirroredParts_neg _
    | infinity r => exact mirroredParts_neg _
    | zero r => exact .inr ⟨s * r, t * r, rfl, rfl⟩
    | finite r m e positive => exact .inr ⟨s * r, t * r, rfl, rfl⟩

theorem Mirrored.div (h : Mirrored x y) (z : Float) : Mirrored (x / z) (y / z) := by
  rw [div_eq_packed, div_eq_packed]
  refine MirroredParts.packed ?_
  rcases h with same | ⟨s, t, first, second⟩
  · rw [same, neg_div_unpacked]
    exact mirroredParts_neg _
  · rw [first, second]
    cases unpacked z with
    | notANumber => exact mirroredParts_neg _
    | infinity r => exact .inr ⟨s / r, t / r, rfl, rfl⟩
    | zero r => exact mirroredParts_neg _
    | finite r m e positive => exact .inr ⟨s / r, t / r, rfl, rfl⟩

theorem Mirrored.abs_eq (h : Mirrored x y) : x.abs = y.abs := by
  apply eq_of_unpacked
  rw [unpacked_abs, unpacked_abs]
  rcases h with same | ⟨s, t, first, second⟩
  · rw [same]
    cases unpacked x <;> rfl
  · rw [first, second]
    rfl

/-- The distance of two numbers is the same in both directions. -/
protected theorem abs_sub_comm (x y : Float) : (x - y).abs = (y - x).abs :=
  (mirrored_sub x y).abs_eq

end CurveArea.Binary64
