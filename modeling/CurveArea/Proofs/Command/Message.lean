import CurveArea.Command
import CurveArea.Proofs.Decimal.Notation
import CurveArea.Proofs.Term.Faults

/-!
# Messages of one line

What a failed run says is one line: none of the messages that a task can end with holds a line
feed. Numbers are written with digits, a point and a sign, the fragment of a term comes from a text
without blanks, and whatever a system says about a file stands on one line.
-/

namespace CurveArea

namespace Text

/-- A text without a line feed. -/
def IsLine (text : String) : Prop := '\n' ∉ text.toList

instance (text : String) : Decidable (IsLine text) := inferInstanceAs (Decidable (_ ∉ _))

theorem IsLine.append {front back : String} (h : IsLine front) (h' : IsLine back) :
    IsLine (front ++ back) := by
  rw [IsLine, String.toList_append, List.mem_append]
  exact not_or.mpr ⟨h, h'⟩

theorem isLine_toString_nat (n : Nat) : IsLine (toString n) := by
  intro member
  rw [Nat.toString_eq_repr, Nat.toList_repr] at member
  exact absurd (Decimal.isDigit_of_mem_digitChars member) (by decide)

theorem isLine_toString_int (n : Int) : IsLine (toString n) := by
  cases n with
  | ofNat n => exact isLine_toString_nat n
  | negSucc n => exact IsLine.append (by decide) (isLine_toString_nat (n + 1))

theorem isLine_plain (x : Float) : IsLine (Decimal.plain x) := by
  rw [IsLine, Decimal.plain, String.toList_ofList]
  exact fun member => absurd (Decimal.isPlain_of_mem_plainChars member) (by decide)

end Text

open Text (IsLine)

/-! ## Failures of a computation -/

/-- The message of a failure is one line if what it shows of a text is. -/
theorem AreaError.isLine_message (e : AreaError Float)
    (h : ∀ fragment position reason, e = .malformedTerm fragment position reason →
      IsLine fragment ∧ IsLine reason) : IsLine e.message := by
  cases e with
  | malformedTerm fragment position reason =>
    obtain ⟨shown, why⟩ := h fragment position reason rfl
    exact ((((IsLine.append (by decide) shown).append (by decide)).append
      (Text.isLine_toString_nat position)).append (by decide)).append why
  | invalidInterval a b =>
    exact (((IsLine.append (by decide) (Text.isLine_plain a)).append (by decide)).append
      (Text.isLine_plain b)).append (by decide)
  | invalidSubdivision requested =>
    exact (IsLine.append (by decide) (Text.isLine_toString_int requested)).append (by decide)
  | degreeOverflow degree =>
    exact (IsLine.append (by decide) (Text.isLine_toString_nat degree.toNat)).append (by decide)

theorem Polynomial.isLine_of_parse_eq_error {text : String} {e : AreaError Float}
    (failed : (parse text : Except (AreaError Float) (Polynomial Float)) = .error e) :
    IsLine e.message := by
  rw [parse] at failed
  split at failed
  · cases failed
  · next fault read =>
    obtain rfl := Except.error.inj failed
    refine AreaError.isLine_message _ ?_
    rintro fragment position reason ⟨⟩
    constructor
    · -- a line feed is blank, so it is in no fragment
      intro member
      rw [String.toList_ofList] at member
      have visible := (List.mem_filter.mp (Token.mem_compact_of_mem_fragment read member)).2
      exact absurd visible (by decide)
    · cases fault.fault <;> decide

theorem Riemann.isLine_of_checkCount_eq_error {n : Int} {e : AreaError Float}
    (failed : (checkCount n : Except (AreaError Float) Nat) = .error e) : IsLine e.message := by
  rw [checkCount] at failed
  split at failed
  · cases failed
  · obtain rfl := Except.error.inj failed
    exact AreaError.isLine_message _ (by rintro _ _ _ ⟨⟩)

theorem Interval.isLine_of_between_eq_error {a b : Float} {e : AreaError Float}
    (failed : Interval.between a b = .error e) : IsLine e.message := by
  rw [Interval.between] at failed
  split at failed
  · cases failed
  · obtain rfl := Except.error.inj failed
    exact AreaError.isLine_message _ (by rintro _ _ _ ⟨⟩)

/-! ## Files that cannot be read or created -/

theorem FileFault.isLine_describe (number : Nat) : IsLine (describe number) := by
  have named : ∀ entry ∈ names, IsLine entry.2 := by decide
  rw [describe]
  cases found : names.lookup number with
  | none => exact IsLine.append (by decide) (Text.isLine_toString_nat number)
  | some name =>
    obtain ⟨before, after, split, -⟩ := List.lookup_eq_some_iff.mp found
    exact named (number, name) (split ▸ List.mem_append_cons_self)

theorem FileFault.isLine_message (fault : FileFault) : IsLine fault.message := by
  cases fault with
  | system number =>
    exact (((isLine_describe number).append (by decide)).append
      (Text.isLine_toString_nat number)).append (by decide)
  | badName => decide
  | notText => decide

end CurveArea
