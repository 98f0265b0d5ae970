import CurveArea.Proofs.Binary64.Exact
import CurveArea.Proofs.Binary64.Whole

/-!
# Half to even

A mantissa that is too long is shifted to the place of the last digit that is kept. What is shifted
out, and what no mantissa could show, is summed up in its accuracy: nothing, or less than half of
the place, or half of it, or more. So the rounded mantissa counts the nearest multiple of the place,
and the even one of two that are equally near.
-/

namespace CurveArea.Binary64

open Float.Model (UnpackedFloat Format totalExponent)
open Float.Model.UnpackedFloat (Sign Accuracy ExtendedMantissa)

/-! ## What is cut off -/

/-- What an accuracy tells of the rest behind a place. -/
def IsRest (rest place : ℚ) : Accuracy → Prop
  | .exact => rest = 0
  | .inexact .lt => 0 < rest ∧ 2 * rest < place
  | .inexact .eq => 2 * rest = place
  | .inexact .gt => place < 2 * rest ∧ rest < place

/-- A value cut at a place: the mantissa counts the whole places, the other bits tell the rest. -/
def Cuts (v place : ℚ) (em : ExtendedMantissa) : Prop :=
  IsRest (v - em.mantissa * place) place em.accuracy

section Cuts

variable {v place : ℚ} {em : ExtendedMantissa}

theorem cuts_ofMantissaAndAccuracy {m : Nat} {accuracy : Accuracy}
    (h : IsRest (v - m * place) place accuracy) :
    Cuts v place (.ofMantissaAndAccuracy m accuracy) := by
  cases accuracy with
  | exact => exact h
  | inexact half => cases half <;> exact h

theorem Cuts.bounds (h : Cuts v place em) (positive : 0 < place) :
    em.mantissa * place ≤ v ∧ v < (em.mantissa + 1) * place := by
  rw [Cuts] at h
  cases accuracy : em.accuracy with
  | exact =>
    rw [accuracy] at h
    change v - em.mantissa * place = 0 at h
    constructor <;> linarith
  | inexact half =>
    rw [accuracy] at h
    cases half with
    | lt => constructor <;> linarith [h.1, h.2]
    | eq =>
      change 2 * (v - em.mantissa * place) = place at h
      constructor <;> linarith
    | gt => constructor <;> linarith [h.1, h.2]

/-- Cutting one digit earlier. -/
theorem Cuts.shiftRightOne (h : Cuts v place em) (positive : 0 < place) :
    Cuts v (2 * place) em.shiftRightOne := by
  obtain ⟨n, roundBit, stickyBit⟩ := em
  have digit : (n : ℚ) * place = (n / 2 : Nat) * (2 * place) + (n % 2 : Nat) * place := by
    have split : ((2 * (n / 2) + n % 2 : Nat) : ℚ) = n := by rw [Nat.div_add_mod]
    rw [← split]
    push_cast
    ring
  -- the digit is the first one behind the place, and the rest tells whether others follow
  rcases Nat.mod_two_eq_zero_or_one n with last | last
  all_goals
    rw [last] at digit
    cases roundBit <;> cases stickyBit <;>
      simp only [Cuts, ExtendedMantissa.accuracy, IsRest] at h <;>
      simp only [Cuts, ExtendedMantissa.accuracy, ExtendedMantissa.shiftRightOne, IsRest, last,
        bne_self_eq_false, Bool.or_false, Bool.or_true] <;>
      grind

theorem Cuts.shiftRight (h : Cuts v place em) (positive : 0 < place) (k : Nat) :
    Cuts v (2 ^ k * place) (em >>> k) := by
  induction k with
  | zero =>
    rw [pow_zero, one_mul]
    exact h
  | succ k ih =>
    rw [pow_succ', mul_assoc]
    exact ih.shiftRightOne (by positivity)

/-- The rounded mantissa counts a multiple of the place that is at most half of it away, and it is
even if it is exactly half. -/
theorem Cuts.roundedMantissa (h : Cuts v place em) (positive : 0 < place) :
    2 * |em.roundedMantissa * place - v| ≤ place ∧
      (2 * |em.roundedMantissa * place - v| = place → Even em.roundedMantissa) := by
  rw [Cuts] at h
  rw [ExtendedMantissa.roundedMantissa]
  cases accuracy : em.accuracy with
  | exact =>
    rw [accuracy] at h
    have same : v = em.mantissa * place := sub_eq_zero.mp h
    rw [Accuracy.roundToNearestEven, same, sub_self, abs_zero, mul_zero]
    exact ⟨positive.le, fun zero => absurd zero positive.ne⟩
  | inexact half =>
    rw [accuracy] at h
    cases half with
    | lt =>
      obtain ⟨some_rest, short⟩ := h
      have below : |em.mantissa * place - v| = v - em.mantissa * place := by
        rw [abs_sub_comm, abs_of_pos some_rest]
      rw [Accuracy.roundToNearestEven, below]
      exact ⟨short.le, fun tie => absurd tie short.ne⟩
    | eq =>
      have tie : 2 * (v - em.mantissa * place) = place := h
      refine ⟨?_, fun _ => ?_⟩
      · rw [Accuracy.roundToNearestEven, ← le_div_iff₀' two_pos, abs_le]
        rcases Nat.mod_two_eq_zero_or_one em.mantissa with last | last
        · rw [last]
          constructor <;> push_cast <;> linarith
        · rw [last]
          constructor <;> push_cast <;> linarith
      · rw [Accuracy.roundToNearestEven, Nat.even_iff]
        omega
    | gt =>
      obtain ⟨long, inside⟩ := h
      have above : |((em.mantissa + 1 : Nat) : ℚ) * place - v| = (em.mantissa + 1) * place - v := by
        rw [abs_of_nonneg] <;> push_cast <;> linarith
      rw [Accuracy.roundToNearestEven, above]
      constructor
      · linarith
      · intro tie
        linarith

end Cuts

/-! ## Rounding to a place -/

/-- What a value is rounded to at a place: a multiple of it that is at most half of it away, and an
even one if it is exactly half. The value has all digits of a number in front of the place, unless
this is the last place of all. -/
structure HalfEven (v a : ℚ) (place multiple : Int) : Prop where
  eq_mul : a = multiple * 2 ^ place
  near : 2 * |a - v| ≤ 2 ^ place
  even : 2 * |a - v| = 2 ^ place → Even multiple
  digits : 2 ^ 52 * 2 ^ place ≤ |v| ∨ place = minExponent

/-! ## Rounding a mantissa -/

theorem mantissa_shiftRight (m : ExtendedMantissa) (k : Nat) :
    (m >>> k).mantissa = m.mantissa / 2 ^ k := by
  induction k with
  | zero => exact (Nat.div_one _).symm
  | succ k ih =>
    change (m >>> k).shiftRightOne.mantissa = _
    rw [ExtendedMantissa.shiftRightOne, ih, Nat.div_div_eq_div_mul, Nat.pow_succ]

theorem mantissa_le_roundedMantissa (m : ExtendedMantissa) : m.mantissa ≤ m.roundedMantissa := by
  rw [ExtendedMantissa.roundedMantissa]
  cases m.accuracy with
  | exact => exact Nat.le_refl _
  | inexact half =>
    cases half with
    | lt => exact Nat.le_refl _
    | eq => exact Nat.le_add_right _ _
    | gt => exact Nat.le_add_right _ _

theorem roundedMantissa_le (m : ExtendedMantissa) : m.roundedMantissa ≤ m.mantissa + 1 := by
  rw [ExtendedMantissa.roundedMantissa]
  cases m.accuracy with
  | exact => exact Nat.le_succ _
  | inexact half =>
    cases half with
    | lt => exact Nat.le_succ _
    | eq => exact Nat.add_le_add_left (Nat.le_of_lt_succ (Nat.mod_lt _ two_pos)) _
    | gt => exact Nat.le_refl _

section Round

variable {m : Nat} {e : Int}

/-- Shifting to the target leaves 53 digits at most. -/
theorem shifted_lt (finer : e ≤ Format.binary64.targetExponent (totalExponent m e)) :
    m / 2 ^ (Format.binary64.targetExponent (totalExponent m e) - e).toNat < 2 * leadingBit := by
  have high : m < 2 ^ (m.log2 + 1) := Nat.lt_log2_self
  rw [targetExponent_eq] at finer ⊢
  rw [Nat.div_lt_iff_lt_mul (Nat.two_pow_pos _)]
  refine Nat.lt_of_lt_of_le high ?_
  change _ ≤ 2 ^ 53 * _
  rw [← Nat.pow_add]
  exact Nat.pow_le_pow_right two_pos (by omega)

/-- Shifting to the target leaves the leading bit, unless the target is the least exponent. -/
theorem leading_shifted (finer : e ≤ Format.binary64.targetExponent (totalExponent m e)) :
    2 ^ 52 * 2 ^ (Format.binary64.targetExponent (totalExponent m e) - e).toNat ≤ m ∨
      Format.binary64.targetExponent (totalExponent m e) = minExponent := by
  rw [targetExponent_eq] at finer ⊢
  change _ ∨ _ = -1074
  by_cases least : max ((m.log2 : Int) + 1 + e - 53) (-1074) = -1074
  · exact .inr least
  · left
    have nonzero : m ≠ 0 := by
      rintro rfl
      rw [Nat.log2_zero] at least finer
      omega
    have low := Nat.log2_self_le nonzero
    have width : m.log2 = 52 + (max ((m.log2 : Int) + 1 + e - 53) (-1074) - e).toNat := by omega
    rwa [width, Nat.pow_add] at low

/-- The carry of a mantissa that is rounded up moves one place further, and nothing is lost. -/
theorem carry_shifted {r : Nat} (positive : 0 < r) {t : Int} (short : r ≤ 2 * leadingBit)
    (least : minExponent ≤ t) (leading : leadingBit ≤ r ∨ t = minExponent) :
    ∃ shift, (Format.binary64.targetExponent (totalExponent r t) - t).toNat = shift ∧
      0 < r / 2 ^ shift ∧ r / 2 ^ shift < 2 * leadingBit ∧
      (leadingBit ≤ r / 2 ^ shift ∨ t + shift = minExponent) ∧
      ((r / 2 ^ shift : Nat) : ℚ) * 2 ^ (t + shift) = r * 2 ^ t := by
  rw [targetExponent_eq]
  change -1074 ≤ t at least
  rcases Nat.lt_or_eq_of_le short with fits | rfl
  · have log : r.log2 < 53 := (Nat.log2_lt positive.ne').mpr fits
    refine ⟨0, by omega, ?_, ?_, ?_, ?_⟩
    · rwa [Nat.pow_zero, Nat.div_one]
    · rwa [Nat.pow_zero, Nat.div_one]
    · rwa [Nat.pow_zero, Nat.div_one, Int.natCast_zero, add_zero]
    · rw [Nat.pow_zero, Nat.div_one, Int.natCast_zero, add_zero]
  · have log : (2 * leadingBit).log2 = 53 := by decide +kernel
    have half : 2 * leadingBit / 2 ^ 1 = leadingBit := rfl
    refine ⟨1, by omega, by decide, by decide, .inl (Nat.le_of_eq half.symm), ?_⟩
    rw [half, two_zpow_add]
    push_cast
    ring

/-- What rounding makes of a value that is not negative, before the range is looked at: a zero, or
parts that are canonical unless their exponent is too large. -/
inductive RoundedParts (v : ℚ) (sign : Sign) : UnpackedFloat → Prop
  | zero {place : Int} : HalfEven v 0 place 0 → RoundedParts v sign (.zero sign)
  | finite {place multiple : Int} {n : Nat} {k : Int} (positive : 0 < n) :
      HalfEven v (n * 2 ^ k) place multiple → (k ≤ 971 → Canonical n k) →
      leadingBit ≤ n ∨ k = minExponent → RoundedParts v sign (.finite sign n k positive)

/-- A value of which a mantissa shows enough digits is rounded half to even. -/
theorem roundedParts_roundWithAccuracy {v : ℚ} {accuracy : Accuracy}
    (shown : IsRest (v - m * 2 ^ e) (2 ^ e) accuracy)
    (finer : e ≤ Format.binary64.targetExponent (totalExponent m e)) (sign : Sign) :
    RoundedParts v sign (UnpackedFloat.roundWithAccuracy .binary64 sign m e accuracy) := by
  have cut : Cuts v (2 ^ e) (.ofMantissaAndAccuracy m accuracy) := cuts_ofMantissaAndAccuracy shown
  have start : (ExtendedMantissa.ofMantissaAndAccuracy m accuracy).mantissa = m := by
    cases accuracy with
    | exact => rfl
    | inexact half => cases half <;> rfl
  have least : minExponent ≤ Format.binary64.targetExponent (totalExponent m e) := by
    rw [targetExponent_eq]
    exact le_max_right _ _
  obtain ⟨shift, target⟩ : ∃ shift : Nat,
      Format.binary64.targetExponent (totalExponent m e) = e + shift :=
    ⟨(Format.binary64.targetExponent (totalExponent m e) - e).toNat, by omega⟩
  have steps : (Format.binary64.targetExponent (totalExponent m e) - e).toNat = shift := by omega
  have short := shifted_lt finer
  have leading := leading_shifted finer
  rw [steps] at short leading
  rw [target] at leading least
  have place : (0 : ℚ) < 2 ^ (e + shift) := zpow_pos two_pos _
  have shifted := cut.shiftRight (zpow_pos two_pos e) shift
  rw [← two_zpow_add] at shifted
  have above := mantissa_le_roundedMantissa
    (ExtendedMantissa.ofMantissaAndAccuracy m accuracy >>> shift)
  have below := roundedMantissa_le
    (ExtendedMantissa.ofMantissaAndAccuracy m accuracy >>> shift)
  have ⟨near, even⟩ := shifted.roundedMantissa place
  have floor := (cut.bounds (zpow_pos two_pos e)).1
  rw [mantissa_shiftRight, start] at above below
  rw [start] at floor
  generalize mantissa :
    (ExtendedMantissa.ofMantissaAndAccuracy m accuracy >>> shift).roundedMantissa = r at *
  have halfEven : HalfEven v (r * 2 ^ (e + shift)) (e + shift) r := by
    refine ⟨rfl, near, fun tie => (Int.even_coe_nat r).mpr (even tie), ?_⟩
    refine leading.imp_left fun digits => ?_
    have digits' : (2 : ℚ) ^ 52 * 2 ^ shift ≤ m := by exact_mod_cast digits
    calc (2 : ℚ) ^ 52 * 2 ^ (e + shift) = (2 : ℚ) ^ 52 * 2 ^ shift * 2 ^ e := by
          rw [two_zpow_add, mul_assoc]
      _ ≤ (m : ℚ) * 2 ^ e := by gcongr
      _ ≤ |v| := floor.trans (le_abs_self v)
  simp only [UnpackedFloat.roundWithAccuracy, UnpackedFloat.shiftToTargetExponent,
    UnpackedFloat.shiftToExponent, steps, mantissa]
  rcases Nat.eq_zero_or_pos r with rfl | positive
  · rw [dif_pos (by rw [mantissa_shiftRight]; exact Nat.zero_div _)]
    rw [Nat.cast_zero, zero_mul] at halfEven
    exact .zero halfEven
  · -- the carry of a mantissa that is rounded up is shifted out once more
    have leading' : leadingBit ≤ r ∨ e + shift = minExponent := by
      refine leading.imp_left fun digits => le_trans ?_ above
      exact (Nat.le_div_iff_mul_le (Nat.two_pow_pos shift)).mpr digits
    obtain ⟨carry, carried, some_digit, short', leads, value⟩ :=
      carry_shifted positive (Nat.le_trans below short) least leading'
    simp only [ExtendedMantissa.ofMantissaAndAccuracy, carried, mantissa_shiftRight]
    rw [dif_neg some_digit.ne']
    rw [← value] at halfEven
    exact .finite some_digit halfEven (fun inRange => ⟨short', by omega, inRange, leads⟩) leads

/-- A mantissa is rounded half to even, however long or short it is. -/
theorem roundedParts_round (positive : 0 < m) (e : Int) (sign : Sign) :
    RoundedParts (m * 2 ^ e) sign (UnpackedFloat.round .binary64 sign m e) := by
  obtain ⟨width, steps⟩ : ∃ width : Nat,
      (e - Format.binary64.targetExponent (totalExponent m e)).toNat = width := ⟨_, rfl⟩
  have total : totalExponent (m * 2 ^ width) (e - width) = totalExponent m e := by
    rw [totalExponent, totalExponent, log2_mul_two_pow positive]
    omega
  have finer : e - width ≤
      Format.binary64.targetExponent (totalExponent (m * 2 ^ width) (e - width)) := by
    rw [total]
    omega
  have value : ((m * 2 ^ width : Nat) : ℚ) * 2 ^ (e - width) = m * 2 ^ e := by
    have shifted := shiftLeft_mul_zpow m (sub_le_self e (Int.natCast_nonneg width))
    have back : (e - (e - (width : Int))).toNat = width := by omega
    rwa [back, Nat.shiftLeft_eq] at shifted
  rw [UnpackedFloat.round]
  simp only [UnpackedFloat.decreaseExponent, steps, Nat.shiftLeft_eq]
  refine roundedParts_roundWithAccuracy ?_ finer sign
  rw [value]
  exact sub_self _

end Round

end CurveArea.Binary64
