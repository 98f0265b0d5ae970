import CurveArea.Decimal.Literal
import CurveArea.Proofs.Binary64.Order
import CurveArea.Proofs.Decimal.Notation

/-!
# Reading back what is written

The text of a number is read as that number, whichever it is: the digits of a finite one stand for a
decimal fraction that rounds to it, and zeros, infinities and NaN have texts of their own.
-/

namespace CurveArea.Decimal

/-- Digits and points have no case. -/
theorem toLower_of_isNumeral {c : Char} (h : isNumeral c = true) : c.toLower = c := by
  by_cases point : c = '.'
  · rw [point]
    rfl
  · have digit := isDigit_of_isNumeral h point
    simp only [Char.isDigit, Bool.and_eq_true, decide_eq_true_eq] at digit
    have high : c.val ≤ 57 := digit.2
    refine dif_neg fun capital => ?_
    have low : 65 ≤ c.val := capital.1
    exact absurd (UInt32.le_trans low high) (by decide)

theorem IsNumber.ne_cons {number : List Char} {digits places : Nat}
    (h : IsNumber number digits places) {c : Char} (other : isNumeral c = false)
    (rest : List Char) : number ≠ c :: rest := by
  rintro rfl
  have numeral := h.all_isNumeral c List.mem_cons_self
  rw [other] at numeral
  cases numeral

/-- A number of the grammar is read whole: it is none of the words, and no exponent follows it. -/
theorem magnitude?_of_isNumber {number : List Char} {digits places : Nat}
    (h : IsNumber number digits places) :
    magnitude? number = some (nearest digits (-(places : Int))) := by
  have lower : number.map Char.toLower = number :=
    (List.map_congr_left fun c member => toLower_of_isNumeral (h.all_isNumeral c member)).trans
      (List.map_id' number)
  have noInfinity : ¬ (number = "inf".toList ∨ number = "infinity".toList) :=
    not_or.mpr ⟨h.ne_cons rfl _, h.ne_cons rfl _⟩
  have noNan : number ≠ "nan".toList := h.ne_cons rfl _
  have run : number.takeWhile isNumeral = number :=
    List.takeWhile_eq_self_iff.mpr h.all_isNumeral
  have rest : number.dropWhile isNumeral = [] :=
    List.dropWhile_eq_nil_iff.mpr h.all_isNumeral
  rw [magnitude?, lower]
  dsimp only
  rw [if_neg noInfinity, if_neg noNan, run, rest, if_pos h.isLiteral, h.literalDigits_eq,
    h.literalPlaces_eq, exponent?, Option.map_some, Int.zero_sub]

theorem read?_of_isNumber {number : List Char} {digits places : Nat} (negative : Bool)
    (h : IsNumber number digits places) :
    read? (String.ofList (signed.mark negative ++ number)) =
      some (if negative then -nearest digits (-(places : Int))
        else nearest digits (-(places : Int))) := by
  rw [read?, String.toList_ofList]
  cases negative with
  | true =>
    rw [if_pos rfl, ← Option.map_some, ← magnitude?_of_isNumber h]
    rfl
  | false =>
    rw [if_neg Bool.false_ne_true, ← magnitude?_of_isNumber h, signed.mark,
      if_neg Bool.false_ne_true, List.nil_append]
    split
    · exact absurd rfl (h.ne_cons rfl _)
    · exact absurd rfl (h.ne_cons rfl _)
    · rfl

/-- Every number is read back from its text, the zeros with their sign, the infinities and NaN
included. -/
theorem read?_plain (x : Float) : read? (plain x) = some x := by
  by_cases number : x = Float.nan
  · subst number
    decide +kernel
  rcases Binary64.isFinite_or_infinite number with finite | rfl | rfl
  · obtain ⟨negative, mantissa, exponent, parts⟩ := Binary64.exists_value_of_isFinite finite
    rcases Nat.eq_zero_or_pos mantissa with rfl | positive
    · rcases Binary64.eq_zero_of_value parts with rfl | rfl
      · decide +kernel
      · decide +kernel
    · obtain ⟨number, digits, places, isNumber, rounded, written⟩ := plainChars_eq parts positive
      have magnitude := Binary64.value_magnitude (Binary64.parts_of_value parts).1
      rw [plain, written, read?_of_isNumber negative isNumber, rounded]
      cases negative with
      | false => exact congrArg some (Binary64.eq_of_value magnitude parts)
      | true =>
        exact congrArg some (Binary64.eq_of_value (Binary64.value_neg magnitude positive) parts)
  · decide +kernel
  · decide +kernel

end CurveArea.Decimal
