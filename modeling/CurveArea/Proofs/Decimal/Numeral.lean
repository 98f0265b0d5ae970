import CurveArea.Decimal.Literal

/-!
# Written numbers

The grammar of a number inside a polynomial, with the decimal fraction that it stands for: digits,
digits with a point and possibly more digits behind it, or a point and digits. The check that
decides on a scanned run of digits and points accepts exactly these, and the two readings of a run,
all of its digits and how many stand behind the point, are those of the grammar.
-/

namespace CurveArea.Decimal

/-- One or more digits. -/
def IsDigits (text : List Char) : Prop := text ≠ [] ∧ ∀ c ∈ text, c.isDigit = true

instance instDecidableIsDigits (text : List Char) : Decidable (IsDigits text) :=
  decidable_of_iff (text ≠ [] ∧ text.all Char.isDigit = true) (by simp [IsDigits])

/-- `IsNumber number digits places`: the text is a number and stands for `digits / 10 ^ places`. -/
inductive IsNumber : List Char → (digits places : Nat) → Prop
  | whole {digits : List Char} : IsDigits digits → IsNumber digits (digitsValue digits) 0
  | pointed {digits fraction : List Char} : IsDigits digits →
      (∀ c ∈ fraction, c.isDigit = true) →
      IsNumber (digits ++ '.' :: fraction) (digitsValue (digits ++ fraction)) fraction.length
  | fraction {fraction : List Char} : IsDigits fraction →
      IsNumber ('.' :: fraction) (digitsValue fraction) fraction.length

theorem ne_point_of_isDigit {c : Char} (h : c.isDigit = true) : c ≠ '.' := by
  rintro rfl
  simp at h

theorem isDigit_of_isNumeral {c : Char} (h : isNumeral c = true) (other : c ≠ '.') :
    c.isDigit = true := by
  simpa [isNumeral, other] using h

theorem isNumeral_of_isDigit {c : Char} (h : c.isDigit = true) : isNumeral c = true := by
  simp [isNumeral, h]

/-- Digits hold no point. -/
theorem count_point_eq_zero {text : List Char} (h : ∀ c ∈ text, c.isDigit = true) :
    text.count '.' = 0 :=
  List.count_eq_zero_of_not_mem fun member => ne_point_of_isDigit (h _ member) rfl

theorem filter_isDigit_eq_self {text : List Char} (h : ∀ c ∈ text, c.isDigit = true) :
    text.filter Char.isDigit = text :=
  List.filter_eq_self.mpr h

theorem dropWhile_ne_point {text : List Char} (h : ∀ c ∈ text, c.isDigit = true)
    (rest : List Char) :
    (text ++ rest).dropWhile (· != '.') = rest.dropWhile (· != '.') := by
  apply List.dropWhile_append_of_pos
  intro c member
  simpa using ne_point_of_isDigit (h c member)

/-- A number of the grammar passes the check on a run. -/
theorem IsNumber.isLiteral {number : List Char} {digits places : Nat}
    (h : IsNumber number digits places) : isLiteral number = true := by
  have some_digit : ∀ {text : List Char}, IsDigits text → ∃ c ∈ text, c.isDigit = true := by
    intro text hd
    obtain ⟨c, member⟩ := List.exists_mem_of_ne_nil text hd.1
    exact ⟨c, member, hd.2 c member⟩
  simp only [Decimal.isLiteral, Bool.and_eq_true, List.any_eq_true, List.all_eq_true,
    decide_eq_true_eq]
  cases h with
  | whole hd =>
    refine ⟨⟨some_digit hd, fun c member => isNumeral_of_isDigit (hd.2 c member)⟩, ?_⟩
    simp [count_point_eq_zero hd.2]
  | @pointed whole fraction hd hf =>
    obtain ⟨c, member, digit⟩ := some_digit hd
    refine ⟨⟨⟨c, by simp [member], digit⟩, ?_⟩, ?_⟩
    · intro c member
      rcases List.mem_append.mp member with left | right
      · exact isNumeral_of_isDigit (hd.2 c left)
      · rcases List.mem_cons.mp right with rfl | right
        · rfl
        · exact isNumeral_of_isDigit (hf c right)
    · simp [count_point_eq_zero hd.2, count_point_eq_zero hf]
  | fraction hd =>
    obtain ⟨c, member, digit⟩ := some_digit hd
    refine ⟨⟨⟨c, by simp [member], digit⟩, ?_⟩, ?_⟩
    · intro c member
      rcases List.mem_cons.mp member with rfl | right
      · rfl
      · exact isNumeral_of_isDigit (hd.2 c right)
    · simp [count_point_eq_zero hd.2]

/-- A run that passes the check is a number of the grammar. -/
theorem exists_isNumber_of_isLiteral {run : List Char} (h : isLiteral run = true) :
    ∃ digits places, IsNumber run digits places := by
  simp only [isLiteral, Bool.and_eq_true, List.any_eq_true, List.all_eq_true,
    decide_eq_true_eq] at h
  obtain ⟨⟨⟨c, inside, digit⟩, numeral⟩, points⟩ := h
  by_cases point : '.' ∈ run
  · obtain ⟨whole, fraction, rfl⟩ := List.append_of_mem point
    simp only [List.count_append, List.count_cons_self] at points
    have digits_of : ∀ text : List Char, text.count '.' = 0 →
        (∀ c ∈ text, c ∈ whole ++ '.' :: fraction) → ∀ c ∈ text, c.isDigit = true := by
      intro text none within c member
      refine isDigit_of_isNumeral (numeral c (within c member)) ?_
      rintro rfl
      exact List.count_eq_zero.mp none member
    have hwhole := digits_of whole (by omega) (by simp +contextual)
    have hfraction := digits_of fraction (by omega) (by simp +contextual)
    by_cases empty : whole = []
    · subst empty
      have nonempty : fraction ≠ [] := by
        rintro rfl
        obtain rfl : c = '.' := by simpa using inside
        exact ne_point_of_isDigit digit rfl
      exact ⟨_, _, .fraction ⟨nonempty, hfraction⟩⟩
    · exact ⟨_, _, .pointed ⟨empty, hwhole⟩ hfraction⟩
  · refine ⟨_, _, .whole ⟨List.ne_nil_of_mem inside, fun c member => ?_⟩⟩
    exact isDigit_of_isNumeral (numeral c member) fun same => point (same ▸ member)

/-- The digits of a run that is a number. -/
theorem IsNumber.literalDigits_eq {number : List Char} {digits places : Nat}
    (h : IsNumber number digits places) : literalDigits number = digits := by
  cases h with
  | whole hd => rw [literalDigits, filter_isDigit_eq_self hd.2]
  | pointed hd hf =>
    rw [literalDigits, List.filter_append, filter_isDigit_eq_self hd.2,
      List.filter_cons_of_neg (by simp), filter_isDigit_eq_self hf]
  | fraction hd =>
    rw [literalDigits, List.filter_cons_of_neg (by simp), filter_isDigit_eq_self hd.2]

/-- The places behind the point of a run that is a number. -/
theorem IsNumber.literalPlaces_eq {number : List Char} {digits places : Nat}
    (h : IsNumber number digits places) : literalPlaces number = places := by
  cases h with
  | whole hd =>
    have past := dropWhile_ne_point hd.2 []
    rw [List.append_nil] at past
    simp [literalPlaces, past]
  | pointed hd hf => simp [literalPlaces, dropWhile_ne_point hd.2]
  | fraction hd => simp [literalPlaces]

/-- A number consists of digits and points. -/
theorem IsNumber.all_isNumeral {number : List Char} {digits places : Nat}
    (h : IsNumber number digits places) : ∀ c ∈ number, isNumeral c = true := by
  have literal := h.isLiteral
  simp only [Decimal.isLiteral, Bool.and_eq_true, List.all_eq_true] at literal
  exact literal.1.2

theorem IsNumber.ne_nil {number : List Char} {digits places : Nat}
    (h : IsNumber number digits places) : number ≠ [] := by
  rintro rfl
  have literal := h.isLiteral
  simp [Decimal.isLiteral] at literal

end CurveArea.Decimal
