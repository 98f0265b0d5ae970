import CurveArea.Decimal.Notation
import CurveArea.Proofs.Decimal.Numeral
import CurveArea.Proofs.Decimal.Shortest

/-!
# What is written is a number

The positional notation is a number of the grammar and stands for the decimal it was written from,
so the number read from it is the one it was written for. No character is written but digits, the
point, the sign and the letters of the two words.
-/

namespace CurveArea.Decimal

open Binary64 (Canonical RoundsTo)

theorem digitsValue_eq_ofDigitChars (text : List Char) :
    digitsValue text = Nat.ofDigitChars 10 text 0 :=
  Nat.ofDigitChars_eq_foldl.symm

@[simp]
theorem digitsValue_digitChars (n : Nat) : digitsValue (digitChars n) = n := by
  rw [digitsValue_eq_ofDigitChars, digitChars, Nat.ofDigitChars_ten_toDigits]

theorem isDigit_of_mem_digitChars {n : Nat} {c : Char} (member : c ∈ digitChars n) :
    c.isDigit = true :=
  Nat.isDigit_of_mem_toDigits (by decide) (by decide) member

theorem isDigits_digitChars (n : Nat) : IsDigits (digitChars n) :=
  ⟨Nat.toDigits_ne_nil, fun _ => isDigit_of_mem_digitChars⟩

theorem isDigit_of_mem_replicate {n : Nat} {c : Char} (member : c ∈ List.replicate n '0') :
    c.isDigit = true := by
  obtain rfl := List.eq_of_mem_replicate member
  rfl

/-- Zeros behind the digits multiply by ten. -/
theorem digitsValue_append_replicate (text : List Char) (n : Nat) :
    digitsValue (text ++ List.replicate n '0') = digitsValue text * 10 ^ n := by
  rw [digitsValue_eq_ofDigitChars, digitsValue_eq_ofDigitChars, Nat.ofDigitChars_append,
    Nat.ofDigitChars_replicate_zero, Nat.mul_comm]

/-- Zeros in front of the digits count nothing. -/
theorem digitsValue_replicate_append (text : List Char) (n : Nat) :
    digitsValue (List.replicate n '0' ++ text) = digitsValue text := by
  rw [digitsValue_eq_ofDigitChars, digitsValue_eq_ofDigitChars, Nat.ofDigitChars_append,
    Nat.ofDigitChars_replicate_zero, Nat.mul_zero]

/-- The point stands before the last `places` digits, with a digit in front of it. -/
theorem isNumber_withPoint (digits : Nat) {places : Nat} (positive : 0 < places) :
    IsNumber (withPoint digits places) digits places := by
  have some_digit := (isDigits_digitChars digits).1
  rw [withPoint]
  simp only [if_neg positive.ne']
  split
  · next inside =>
    have whole : IsDigits ((digitChars digits).take ((digitChars digits).length - places)) := by
      constructor
      · intro empty
        rcases List.take_eq_nil_iff.mp empty with none | none
        · omega
        · exact some_digit none
      · intro c member
        exact isDigit_of_mem_digitChars (List.mem_of_mem_take member)
    have fraction : ∀ c ∈ (digitChars digits).drop ((digitChars digits).length - places),
        c.isDigit = true := by
      intro c member
      exact isDigit_of_mem_digitChars (List.mem_of_mem_drop member)
    have number := IsNumber.pointed whole fraction
    rw [List.take_append_drop, digitsValue_digitChars, List.length_drop,
      Nat.sub_sub_self (Nat.le_of_lt inside)] at number
    exact number
  · next outside =>
    have zero : IsDigits ['0'] := by decide
    have fraction : ∀ c ∈ List.replicate (places - (digitChars digits).length) '0' ++
        digitChars digits, c.isDigit = true := by
      intro c member
      rcases List.mem_append.mp member with padding | written
      · exact isDigit_of_mem_replicate padding
      · exact isDigit_of_mem_digitChars written
    have value : digitsValue (['0'] ++ (List.replicate (places - (digitChars digits).length) '0' ++
        digitChars digits)) = digits := by
      rw [show ['0'] = List.replicate 1 '0' from rfl, digitsValue_replicate_append,
        digitsValue_replicate_append, digitsValue_digitChars]
    have number := IsNumber.pointed zero fraction
    rw [value, List.length_append, List.length_replicate, Nat.sub_add_cancel (by omega)] at number
    exact number

/-- What is written for a decimal is a number that stands for it. -/
theorem exists_isNumber_positional (digits : Nat) (place : Int) :
    ∃ value places, IsNumber (positional digits place) value places ∧
      (value / 10 ^ places : ℚ) = digits * 10 ^ place := by
  cases place with
  | ofNat zeros =>
    have number : IsDigits (digitChars digits ++ List.replicate zeros '0') := by
      constructor
      · simp [(isDigits_digitChars digits).1]
      · intro c member
        rcases List.mem_append.mp member with written | padding
        · exact isDigit_of_mem_digitChars written
        · exact isDigit_of_mem_replicate padding
    refine ⟨_, 0, .whole number, ?_⟩
    rw [positional, digitsValue_append_replicate, digitsValue_digitChars]
    simp
  | negSucc places =>
    refine ⟨digits, places + 1, isNumber_withPoint digits (Nat.succ_pos places), ?_⟩
    rw [zpow_negSucc, div_eq_mul_inv]

/-- A finite number that is not zero is written as a sign and a number that is read as its
magnitude. -/
theorem plainChars_eq {x : Float} {negative : Bool} {mantissa : Nat} {exponent : Int}
    (h : Binary64.value x = .finite negative mantissa exponent) (positive : 0 < mantissa) :
    ∃ number digits places, IsNumber number digits places ∧
      nearest digits (-(places : Int)) = Binary64.magnitude mantissa exponent ∧
      plainChars x = signed.mark negative ++ number := by
  obtain ⟨digits, places, number, value⟩ := exists_isNumber_positional
    (shortest mantissa exponent).1 (shortest mantissa exponent).2
  refine ⟨_, digits, places, number, ?_, ?_⟩
  · apply nearest_eq_magnitude_of_roundsTo (Binary64.parts_of_value h).1 positive
    rw [value]
    exact shortest_roundsTo exponent positive
  · simp only [plainChars, signed, h, if_neg positive.ne']

/-! ## The characters of a written number -/

/-- The characters that a number is written with. -/
def IsPlain (c : Char) : Prop := isNumeral c = true ∨ c ∈ ['-', 'i', 'n', 'f', 'N', 'a']

instance (c : Char) : Decidable (IsPlain c) := inferInstanceAs (Decidable (_ ∨ _))

theorem isPlain_of_mem_mark {negative : Bool} {c : Char} (member : c ∈ signed.mark negative) :
    IsPlain c := by
  cases negative with
  | false => cases member
  | true =>
    obtain rfl := List.mem_singleton.mp member
    exact .inr (by decide)

/-- A number is written without any other character, so its text stands apart from what surrounds
it. -/
theorem isPlain_of_mem_plainChars {x : Float} {c : Char} (member : c ∈ plainChars x) :
    IsPlain c := by
  have nan : ['N', 'a', 'N'] ⊆ ['-', 'i', 'n', 'f', 'N', 'a'] := by decide
  have infinity : ['i', 'n', 'f'] ⊆ ['-', 'i', 'n', 'f', 'N', 'a'] := by decide
  rw [plainChars, signed] at member
  split at member
  · exact .inr (nan member)
  · rcases List.mem_append.mp member with sign | word
    · exact isPlain_of_mem_mark sign
    · exact .inr (infinity word)
  · next negative mantissa exponent _ =>
    rcases List.mem_append.mp member with sign | digits
    · exact isPlain_of_mem_mark sign
    · split at digits
      · obtain rfl := List.mem_singleton.mp digits
        exact .inl rfl
      · obtain ⟨_, _, number, -⟩ := exists_isNumber_positional
          (shortest mantissa exponent).1 (shortest mantissa exponent).2
        exact .inl (number.all_isNumeral c digits)

end CurveArea.Decimal
