import CurveArea.Proofs.Decimal.Numeral
import CurveArea.Term.Lexeme
import CurveArea.Text.Blank

/-!
# The grammar of a term

What a written term may look like, and that scanning finds it again: a term of the grammar that is
followed by a sign or by nothing is cut off at its end, whichever of its optional parts it has. The
greedy runs of a number and of an exponent cannot reach into what follows, because a sign is
neither a digit nor a point. So a sign also leaves alone what can be scanned before it, be it a term
or nothing.
-/

namespace CurveArea.Lexeme

open Decimal (IsDigits IsNumber)
open Text (not_of_head?_dropWhile)

/-- A term of the grammar: a number, or the variable with an optional number before it and an
optional exponent behind it, in either case with an optional sign. -/
inductive IsTerm : Lexeme → Prop
  | constant {sign : Option Sign} {number : List Char} {digits places : Nat} :
      IsNumber number digits places → IsTerm (.constant sign number)
  | power {sign : Option Sign} {number exponent : Option (List Char)} :
      (∀ text ∈ number, ∃ digits places, IsNumber text digits places) →
      (∀ text ∈ exponent, IsDigits text) → IsTerm (.power sign number exponent)

/-- What may follow a term: nothing, or a sign. -/
def EndsTerm (rest : List Char) : Prop := ∀ c ∈ rest.head?, (Sign.ofChar? c).isSome = true

theorem endsTerm_nil : EndsTerm [] := by
  intro c member
  simp at member

theorem sign_of_isSome {c : Char} (h : (Sign.ofChar? c).isSome = true) : c = '+' ∨ c = '-' := by
  unfold Sign.ofChar? at h
  split at h <;> simp_all

/-- A sign belongs to no number, no exponent and no power. -/
theorem ofChar?_eq_none_of_isNumeral {c : Char} (h : Decimal.isNumeral c = true) :
    Sign.ofChar? c = none := by
  cases found : Sign.ofChar? c with
  | none => rfl
  | some sign =>
    rcases sign_of_isSome (Option.isSome_of_eq_some found) with rfl | rfl <;>
      simp [Decimal.isNumeral] at h

theorem EndsTerm.not_isNumeral {rest : List Char} (ends : EndsTerm rest) :
    ∀ c ∈ rest.head?, Decimal.isNumeral c = false := by
  intro c member
  rcases sign_of_isSome (ends c member) with rfl | rfl <;> rfl

theorem EndsTerm.not_isDigit {rest : List Char} (ends : EndsTerm rest) :
    ∀ c ∈ rest.head?, c.isDigit = false := by
  intro c member
  rcases sign_of_isSome (ends c member) with rfl | rfl <;> rfl

/-- A run of characters of a class is no longer for what stands behind the text, if that starts
outside of the class. -/
theorem span_append_of_stop {p : Char → Bool} (text : List Char) {more : List Char}
    (stop : ∀ c ∈ more.head?, p c = false) :
    (text ++ more).takeWhile p = text.takeWhile p ∧
      (text ++ more).dropWhile p = text.dropWhile p ++ more := by
  induction text with
  | nil =>
    cases more with
    | nil => exact ⟨rfl, rfl⟩
    | cons c rest => simp [stop c rfl]
  | cons c rest ih =>
    by_cases inside : p c = true
    · simp [inside, ih.1, ih.2]
    · simp [inside]

/-- A run of characters of a class is cut off where the class ends. -/
theorem span_append {p : Char → Bool} {run rest : List Char} (inside : ∀ c ∈ run, p c = true)
    (stop : ∀ c ∈ rest.head?, p c = false) :
    (run ++ rest).takeWhile p = run ∧ (run ++ rest).dropWhile p = rest := by
  rw [List.takeWhile_append_of_pos inside, List.dropWhile_append_of_pos inside]
  cases rest with
  | nil => simp
  | cons c more => simp [stop c rfl]

theorem scanSign_append (sign : Option Sign) {rest : List Char}
    (unsigned : sign = none → ∀ c ∈ rest.head?, Sign.ofChar? c = none) :
    scanSign (signText sign ++ rest) = (sign, rest) := by
  cases sign with
  | some s => cases s <;> rfl
  | none =>
    cases rest with
    | nil => rfl
    | cons c more => simp [signText, scanSign, unsigned rfl c rfl]

theorem scanNumber_append {number rest : List Char} {digits places : Nat}
    (h : IsNumber number digits places)
    (stop : ∀ c ∈ rest.head?, Decimal.isNumeral c = false) :
    scanNumber (number ++ rest) = (some number, rest) := by
  obtain ⟨run, left⟩ := span_append h.all_isNumeral stop
  simp [scanNumber, run, left, h.isLiteral]

theorem scanNumber_of_stop {rest : List Char}
    (stop : ∀ c ∈ rest.head?, Decimal.isNumeral c = false) : scanNumber rest = (none, rest) := by
  have run : ([] ++ rest).takeWhile Decimal.isNumeral = [] := (span_append (by simp) stop).1
  rw [List.nil_append] at run
  simp [scanNumber, run, Decimal.isLiteral]

/-- Where an optional number stands, it is scanned if it is there. -/
theorem scanNumber_getD_append {number : Option (List Char)} (rest : List Char)
    (h : ∀ text ∈ number, ∃ digits places, IsNumber text digits places)
    (stop : ∀ c ∈ rest.head?, Decimal.isNumeral c = false) :
    scanNumber (number.getD [] ++ rest) = (number, rest) := by
  cases number with
  | none => exact scanNumber_of_stop stop
  | some text =>
    obtain ⟨digits, places, hnumber⟩ := h text rfl
    exact scanNumber_append hnumber stop

/-- Nothing of what follows belongs to a term: no digit, no point and no variable to a number, no
exponent to a power without one, and no digit to an exponent. -/
def EndsBefore (back : List Char) : Lexeme → Prop
  | constant _ _ => ∀ c ∈ back.head?, Decimal.isNumeral c = false ∧ c ≠ variableChar
  | power _ _ none => ∀ c more, back = '^' :: c :: more → c.isDigit = false
  | power _ _ (some _) => ∀ c ∈ back.head?, c.isDigit = false

theorem EndsTerm.endsBefore {rest : List Char} (ends : EndsTerm rest) (lexeme : Lexeme) :
    lexeme.EndsBefore rest := by
  cases lexeme with
  | constant sign number =>
    intro c member
    refine ⟨ends.not_isNumeral c member, ?_⟩
    rcases sign_of_isSome (ends c member) with rfl | rfl <;> decide
  | power sign number exponent =>
    cases exponent with
    | some digits => exact ends.not_isDigit
    | none =>
      rintro c more rfl
      rcases sign_of_isSome (ends '^' rfl) with mark | mark <;> simp at mark

theorem scanExponent_append {sign : Option Sign} {number exponent : Option (List Char)}
    {rest : List Char} (h : ∀ text ∈ exponent, IsDigits text)
    (ends : (power sign number exponent).EndsBefore rest) :
    scanExponent (exponentText exponent ++ rest) = (exponent, rest) := by
  cases exponent with
  | some digits =>
    have hdigits := h digits rfl
    obtain ⟨run, left⟩ := span_append hdigits.2 ends
    simp [exponentText, scanExponent, run, left, hdigits.1]
  | none =>
    rw [exponentText, List.nil_append]
    unfold scanExponent
    split
    · next more =>
      -- a mark stays where no digit follows it
      cases more with
      | nil => rfl
      | cons c more => simp [ends c more rfl]
    · rfl

/-- Behind its sign a term starts with no sign. -/
private theorem number_unsigned {number : List Char} {digits places : Nat} (rest : List Char)
    (h : IsNumber number digits places) :
    ∀ c ∈ (number ++ rest).head?, Sign.ofChar? c = none := by
  intro c member
  obtain ⟨first, more, rfl⟩ := List.exists_cons_of_ne_nil h.ne_nil
  obtain rfl : first = c := by simpa using member
  exact ofChar?_eq_none_of_isNumeral (h.all_isNumeral _ (by simp))

/-- Scanning finds a term of the grammar where it ends. -/
theorem scan_of_endsBefore {lexeme : Lexeme} {rest : List Char} (h : lexeme.IsTerm)
    (ends : lexeme.EndsBefore rest) : scan (lexeme.text ++ rest) = some (lexeme, rest) := by
  cases h with
  | @constant sign number digits places hnumber =>
    have afterSign := scanSign_append sign fun _ => number_unsigned rest hnumber
    have afterNumber := scanNumber_append hnumber fun c member => (ends c member).1
    simp only [scan, text, List.append_assoc, afterSign, afterNumber]
    cases rest with
    | nil => rfl
    | cons c more => simp [(ends c rfl).2]
  | @power sign number exponent hnumber hexponent =>
    have unsigned : ∀ c ∈ (number.getD [] ++ variableChar :: (exponentText exponent ++ rest)).head?,
        Sign.ofChar? c = none := by
      cases number with
      | none => rintro c ⟨rfl⟩; rfl
      | some digits =>
        obtain ⟨_, _, isNumber⟩ := hnumber digits rfl
        exact number_unsigned _ isNumber
    have afterSign := scanSign_append sign fun _ => unsigned
    have afterNumber := scanNumber_getD_append (variableChar :: (exponentText exponent ++ rest))
      hnumber (by rintro c ⟨rfl⟩; rfl)
    have afterExponent := scanExponent_append hexponent ends
    simp [scan, text, afterSign, afterNumber, afterExponent]

/-- Scanning finds a term of the grammar that a sign or the end follows. -/
theorem scan_text_append {lexeme : Lexeme} {rest : List Char} (h : lexeme.IsTerm)
    (ends : EndsTerm rest) : scan (lexeme.text ++ rest) = some (lexeme, rest) :=
  scan_of_endsBefore h (ends.endsBefore lexeme)

theorem isDigits_of_scanExponent {rest digits : List Char}
    (h : (scanExponent rest).1 = some digits) : IsDigits digits := by
  unfold scanExponent at h
  split at h
  · next more =>
    dsimp only at h
    split at h
    · simp at h
    · next nonempty =>
      obtain rfl := Option.some.inj h
      refine ⟨by simpa using nonempty, fun c member => ?_⟩
      exact List.all_eq_true.mp List.all_takeWhile c member
  · simp at h

/-- What is scanned is a term of the grammar. -/
theorem isTerm_of_scan {text rest : List Char} {lexeme : Lexeme}
    (h : scan text = some (lexeme, rest)) : lexeme.IsTerm := by
  have isNumber : ∀ {digits : List Char}, (scanNumber (scanSign text).2).1 = some digits →
      ∃ value places, IsNumber digits value places := fun found =>
    Decimal.exists_isNumber_of_isLiteral (isLiteral_of_scanNumber found)
  obtain ⟨afterVariable, -, rfl, -⟩ | ⟨digits, found, rfl, -⟩ := scan_cases h
  · exact .power (fun digits found => isNumber found) fun digits => isDigits_of_scanExponent
  · obtain ⟨_, _, number⟩ := isNumber found
    exact .constant number

theorem endsBefore_scanExponent (sign : Option Sign) (number : Option (List Char))
    (text : List Char) :
    (power sign number (scanExponent text).1).EndsBefore (scanExponent text).2 := by
  unfold scanExponent
  split
  · next rest =>
    dsimp only
    split
    · next empty =>
      intro c more same
      obtain rfl := (List.cons.inj same).2
      exact Bool.eq_false_iff.mpr fun digit => by simp [digit] at empty
    · exact not_of_head?_dropWhile
  · next noMark =>
    intro c more same
    exact absurd same (noMark _)

/-- A scanned term ends where what is left starts. -/
theorem endsBefore_of_scan {text rest : List Char} {lexeme : Lexeme}
    (h : scan text = some (lexeme, rest)) : lexeme.EndsBefore rest := by
  obtain ⟨afterVariable, -, rfl, rfl⟩ | ⟨digits, found, rfl, rfl⟩ := scan_cases h
  · exact endsBefore_scanExponent _ _ afterVariable
  · intro c member
    constructor
    · simp only [scanNumber] at found member
      split at found
      · next literal =>
        rw [if_pos literal] at member
        exact not_of_head?_dropWhile c member
      · cases found
    · -- a number in front of the variable is scanned as a power
      rintro rfl
      obtain ⟨more, left⟩ := List.head?_eq_some_iff.mp member
      simp [scan, left] at h

/-- The term that is scanned is the one that stands at the start of the text. -/
theorem scan_eq_some_iff {text rest : List Char} {lexeme : Lexeme} :
    scan text = some (lexeme, rest) ↔
      lexeme.IsTerm ∧ text = lexeme.text ++ rest ∧ lexeme.EndsBefore rest := by
  constructor
  · intro h
    exact ⟨isTerm_of_scan h, (text_append_of_scan h).symm, endsBefore_of_scan h⟩
  · rintro ⟨isTerm, rfl, ends⟩
    exact scan_of_endsBefore isTerm ends

/-- A term stands at the start of a text if what follows it there does not belong to it. -/
def StandsAt (text : List Char) (lexeme : Lexeme) : Prop :=
  lexeme.IsTerm ∧ ∃ rest, text = lexeme.text ++ rest ∧ lexeme.EndsBefore rest

theorem standsAt_iff {text : List Char} {lexeme : Lexeme} :
    StandsAt text lexeme ↔ ∃ rest, scan text = some (lexeme, rest) := by
  simp only [StandsAt, scan_eq_some_iff, exists_and_left]

/-- Nothing is scanned where no term stands, and only there. -/
theorem scan_eq_none_iff {text : List Char} :
    scan text = none ↔ ∀ lexeme, ¬ StandsAt text lexeme := by
  simp only [standsAt_iff, Option.eq_none_iff_forall_ne_some, Prod.forall, not_exists, ne_eq]

theorem IsTerm.standsAt_text {lexeme : Lexeme} (h : lexeme.IsTerm) :
    StandsAt lexeme.text lexeme :=
  ⟨h, [], (List.append_nil _).symm, endsTerm_nil.endsBefore lexeme⟩

/-- Only one term stands at the start of a text. -/
theorem StandsAt.eq_of_scan {text rest : List Char} {lexeme term : Lexeme}
    (h : StandsAt text lexeme) (scanned : scan text = some (term, rest)) : lexeme = term := by
  obtain ⟨rest', found⟩ := standsAt_iff.mp h
  exact (Prod.mk.inj (Option.some.inj (found.symm.trans scanned))).1

/-- A text is that of one term only. -/
theorem IsTerm.eq_of_text {lexeme other : Lexeme} (h : lexeme.IsTerm) (h' : other.IsTerm)
    (same : lexeme.text = other.text) : lexeme = other := by
  obtain ⟨rest, scanned⟩ := standsAt_iff.mp h'.standsAt_text
  exact h.standsAt_text.eq_of_scan (same ▸ scanned)

theorem scanSign_append_of_ne_nil {text : List Char} (nonempty : text ≠ []) (more : List Char) :
    scanSign (text ++ more) = ((scanSign text).1, (scanSign text).2 ++ more) := by
  obtain ⟨c, rest, rfl⟩ := List.exists_cons_of_ne_nil nonempty
  simp only [List.cons_append, scanSign]
  split <;> rfl

theorem scanNumber_append_of_ends (text : List Char) {more : List Char} (ends : EndsTerm more) :
    scanNumber (text ++ more) = ((scanNumber text).1, (scanNumber text).2 ++ more) := by
  obtain ⟨run, left⟩ := span_append_of_stop text ends.not_isNumeral
  simp only [scanNumber, run, left]
  split <;> rfl

theorem scanExponent_append_of_ends (text : List Char) {more : List Char} (ends : EndsTerm more) :
    scanExponent (text ++ more) = ((scanExponent text).1, (scanExponent text).2 ++ more) := by
  cases text with
  | nil =>
    have bare : (power none none none).EndsBefore more := ends.endsBefore _
    exact scanExponent_append (by simp) bare
  | cons c rest =>
    by_cases mark : c = '^'
    · subst mark
      obtain ⟨run, left⟩ := span_append_of_stop rest ends.not_isDigit
      simp only [List.cons_append, scanExponent, run, left]
      split <;> rfl
    · simp [scanExponent, mark]

/-- What is scanned at the start of a text, and that nothing can be scanned there, does not depend
on what a sign or the end starts behind it. -/
theorem scan_append {text : List Char} (nonempty : text ≠ []) {more : List Char}
    (ends : EndsTerm more) :
    scan (text ++ more) = (scan text).map fun found => (found.1, found.2 ++ more) := by
  simp only [scan, scanSign_append_of_ne_nil nonempty, scanNumber_append_of_ends _ ends]
  cases left : (scanNumber (scanSign text).2).2 with
  | nil =>
    cases more with
    | nil => cases (scanNumber (scanSign text).2).1 <;> rfl
    | cons c rest =>
      have noVariable : c ≠ variableChar := by
        rcases sign_of_isSome (ends c rfl) with rfl | rfl <;> decide
      simp only [List.nil_append, if_neg noVariable]
      cases (scanNumber (scanSign text).2).1 <;> rfl
  | cons c rest =>
    simp only [List.cons_append, scanExponent_append_of_ends rest ends]
    split
    · rfl
    · cases (scanNumber (scanSign text).2).1 <;> rfl

/-- The characters that terms are made of. -/
def isTermChar (c : Char) : Bool :=
  Decimal.isNumeral c || c == variableChar || c == '^' || (Sign.ofChar? c).isSome

theorem isTermChar_of_isNumeral {c : Char} (h : Decimal.isNumeral c = true) :
    isTermChar c = true := by
  simp [isTermChar, h]

theorem isTermChar_of_mem_signText {sign : Option Sign} {c : Char} (member : c ∈ signText sign) :
    isTermChar c = true := by
  cases sign with
  | none => cases member
  | some sign =>
    obtain rfl := List.mem_singleton.mp member
    cases sign <;> decide

theorem IsTerm.isTermChar_of_mem {lexeme : Lexeme} (h : lexeme.IsTerm) {c : Char}
    (member : c ∈ lexeme.text) : isTermChar c = true := by
  cases h with
  | constant number =>
    rcases List.mem_append.mp member with sign | digits
    · exact isTermChar_of_mem_signText sign
    · exact isTermChar_of_isNumeral (number.all_isNumeral c digits)
  | @power sign number exponent hnumber hexponent =>
    rcases List.mem_append.mp member with before | behind
    · rcases List.mem_append.mp before with sign | digits
      · exact isTermChar_of_mem_signText sign
      · cases number with
        | none => cases digits
        | some text =>
          obtain ⟨_, _, isNumber⟩ := hnumber text rfl
          exact isTermChar_of_isNumeral (isNumber.all_isNumeral c digits)
    · rcases List.mem_cons.mp behind with rfl | behind
      · decide
      · cases exponent with
        | none => cases behind
        | some text =>
          rcases List.mem_cons.mp behind with rfl | digits
          · decide
          · have digit := (hexponent text rfl).2 c digits
            exact isTermChar_of_isNumeral (Decimal.isNumeral_of_isDigit digit)

theorem isBlank_eq_false_of_isTermChar {c : Char} (h : isTermChar c = true) :
    Text.isBlank c = false := by
  have inTerms : c.isDigit = true ∨ c = '.' ∨ c = 'x' ∨ c = '^' ∨ c = '+' ∨ c = '-' := by
    simp only [isTermChar, Decimal.isNumeral, variableChar, Bool.or_eq_true, beq_iff_eq] at h
    rcases h with (((digit | point) | letter) | mark) | sign
    · exact .inl digit
    · exact .inr (.inl point)
    · exact .inr (.inr (.inl letter))
    · exact .inr (.inr (.inr (.inl mark)))
    · exact .inr (.inr (.inr (.inr (sign_of_isSome sign))))
  rcases inTerms with digit | rfl | rfl | rfl | rfl | rfl
  · have range : 48 ≤ c.toNat ∧ c.toNat ≤ 57 := by
      simpa [Char.isDigit, UInt32.le_iff_toNat_le] using digit
    simp [Text.isBlank, Text.blankRanges]
    omega
  all_goals decide

/-- No character of a term is blank, so a term stays as it is when blanks are dropped. -/
theorem IsTerm.compact_text {lexeme : Lexeme} (h : lexeme.IsTerm) :
    Text.compact lexeme.text = lexeme.text := by
  apply List.filter_eq_self.mpr
  intro c member
  rw [isBlank_eq_false_of_isTermChar (h.isTermChar_of_mem member), Bool.not_false]

end CurveArea.Lexeme
