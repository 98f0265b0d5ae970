import CurveArea.Proofs.Binary64.Parts
import CurveArea.Proofs.Term.Rounds

/-!
# Where reading fails

The fault that ends a reading says where it is and what stands there. The text up to it is read by
itself, since it was read on the way. Behind it no term stands, or one that needs a sign and has
none, or one whose number rounds to infinity or whose exponent has more than 32 bits. Only one of
these holds, and the fragment of the fault is the term, or all that is left where there is none.
-/

namespace CurveArea

open Decimal (IsDigits IsNumber digitsValue)
open Lexeme (scan Cut IsTerm StandsAt isTerm_of_scan text_append_of_scan text_ne_nil_of_scan)

/-! ## Numbers and exponents that are too large -/

namespace Decimal

theorem exists_nearest_eq_ofBits (digits : Nat) (exponent : Int) :
    ∃ bits, nearest digits exponent = Binary64.ofBits bits := by
  rw [nearest, Binary64.nearest]
  split
  · exact ⟨_, rfl⟩
  · split
    · exact ⟨Binary64.infinityBits, rfl⟩
    · split
      · exact ⟨_, rfl⟩
      · split <;> exact ⟨_, rfl⟩

/-- A decimal is not read as NaN, and without a sign not as the infinity that has one. -/
theorem nearest_eq_infinity {digits : Nat} {exponent : Int}
    (infinite : (nearest digits exponent).isFinite = false) :
    nearest digits exponent = Binary64.infinity := by
  obtain ⟨bits, same⟩ := exists_nearest_eq_ofBits digits exponent
  rw [same] at infinite ⊢
  exact Binary64.ofBits_eq_infinity infinite

end Decimal

namespace Lexeme

/-- The number of a written term, if it has one. -/
def number : Lexeme → Option (List Char)
  | constant _ number => some number
  | power _ number _ => number

/-- The exponent of a written term, if it has one. -/
def exponent : Lexeme → Option (List Char)
  | constant _ _ => none
  | power _ _ exponent => exponent

/-- A written number that rounds to infinity. -/
inductive IsInfinite : Option (List Char) → Prop
  | written {number : List Char} {digits places : Nat} : IsNumber number digits places →
      (Scalar.ofDecimal digits places : Float) = Binary64.infinity → IsInfinite (some number)

/-- A written exponent beyond the largest degree. -/
inductive IsOversized : Option (List Char) → Prop
  | written {digits : List Char} : IsDigits digits → 4294967295 < digitsValue digits →
      IsOversized (some digits)

theorem magnitude_eq_error_iff {number : Option (List Char)} {fault : TermFault}
    (h : ∀ text ∈ number, ∃ digits places, IsNumber text digits places) :
    (magnitude number : Except TermFault Float) = .error fault ↔
      fault = .infiniteNumber ∧ IsInfinite number := by
  cases number with
  | none =>
    constructor
    · intro found
      cases found
    · rintro ⟨-, infinite⟩
      cases infinite
  | some text =>
    obtain ⟨digits, places, isNumber⟩ := h text rfl
    simp only [magnitude, isNumber.literalDigits_eq, isNumber.literalPlaces_eq]
    constructor
    · intro found
      split at found
      · cases found
      · next infinite =>
        refine ⟨(Except.error.inj found).symm, .written isNumber ?_⟩
        exact Decimal.nearest_eq_infinity (Bool.eq_false_iff.mpr infinite)
    · rintro ⟨rfl, written⟩
      cases written with
      | written other infinite =>
        rw [← isNumber.literalDigits_eq, ← isNumber.literalPlaces_eq, other.literalDigits_eq,
          other.literalPlaces_eq, infinite]
        rfl

theorem degree_eq_error_iff {exponent : Option (List Char)} {fault : TermFault}
    (h : ∀ text ∈ exponent, IsDigits text) :
    degree exponent = .error fault ↔ fault = .exponentTooLarge ∧ IsOversized exponent := by
  cases exponent with
  | none =>
    constructor
    · intro found
      cases found
    · rintro ⟨-, oversized⟩
      cases oversized
  | some digits =>
    simp only [degree, Degree.ofNat?]
    constructor
    · intro found
      split at found
      · cases found
      · next beyond =>
        refine ⟨(Except.error.inj found).symm, .written (h digits rfl) ?_⟩
        split at beyond
        · cases beyond
        · next large => exact Nat.lt_of_not_le large
    · rintro ⟨rfl, ⟨-, large⟩⟩
      have beyond : ¬ digitsValue digits ≤ Degree.max.toNat := Nat.not_le_of_lt large
      rw [if_neg beyond]

/-- A term has no value if its number or its exponent is too large, and the number is the reason if
both are. -/
theorem token_eq_error_iff {term : Lexeme} {fault : TermFault} (h : term.IsTerm) :
    (term.token : Except TermFault (Token Float)) = .error fault ↔
      (fault = .infiniteNumber ∧ IsInfinite term.number) ∨
        ¬ IsInfinite term.number ∧ fault = .exponentTooLarge ∧ IsOversized term.exponent := by
  cases h with
  | @constant sign number digits places isNumber =>
    have single : ∀ text ∈ some number, ∃ digits places, IsNumber text digits places := by
      rintro text ⟨rfl⟩
      exact ⟨digits, places, isNumber⟩
    have noExponent : ¬ IsOversized none := by rintro ⟨⟩
    simp only [Lexeme.number, Lexeme.exponent, noExponent, and_false, or_false,
      ← magnitude_eq_error_iff single, token]
    cases (magnitude (some number) : Except TermFault Float) with
    | error known => simp [bind, Except.bind]
    | ok value => simp [bind, Except.bind, pure, Except.pure]
  | @power sign number exponent hnumber hexponent =>
    simp only [Lexeme.number, Lexeme.exponent, token]
    cases known : (magnitude number : Except TermFault Float) with
    | error other =>
      obtain ⟨rfl, infinite⟩ := (magnitude_eq_error_iff hnumber).mp known
      simp [infinite, bind, Except.bind, eq_comm]
    | ok value =>
      have finite : ¬ IsInfinite number := by
        intro infinite
        rw [(magnitude_eq_error_iff hnumber).mpr ⟨rfl, infinite⟩] at known
        cases known
      rw [← degree_eq_error_iff hexponent]
      cases degree exponent with
      | error other => simp [finite, bind, Except.bind]
      | ok d => simp [finite, bind, Except.bind, pure, Except.pure]

/-- No character of a text that is cut into terms is blank. -/
theorem Cut.compact_text {leading : Bool} {terms : List Lexeme} {text : List Char}
    (cut : Cut leading terms text) : Text.compact text = text := by
  refine List.filter_eq_self.mpr fun c member => ?_
  rw [isBlank_eq_false_of_isTermChar (cut.isTermChar_of_mem c member), Bool.not_false]

end Lexeme

/-! ## The fault of a reading -/

/-- What is wrong with a text behind a front that is read. -/
inductive Refusal
  /-- No term stands there. -/
  | unreadable
  /-- A term stands there that needs a sign and has none. -/
  | unsigned
  /-- A term stands there that has no value. -/
  | valueless

/-- When a refusal explains that of the text `rest`, `position` bytes behind the start, `fragment`
is refused for `reason`. -/
def Refusal.Explains (position : Nat) (rest fragment : List Char) (reason : String) :
    Refusal → Prop
  | unreadable => (∀ term, ¬ StandsAt rest term) ∧ fragment = rest
  | unsigned =>
    0 < position ∧ reason = "missing '+' or '-' between terms" ∧
      ∃ term : Lexeme, term.IsTerm ∧ term.text = fragment ∧ term.sign = none
  | valueless =>
    ∃ term : Lexeme, term.IsTerm ∧ term.text = fragment ∧ (0 < position → term.sign ≠ none) ∧
      (Lexeme.IsInfinite term.number ∧ reason = "coefficient is not finite" ∨
        ¬ Lexeme.IsInfinite term.number ∧ Lexeme.IsOversized term.exponent ∧
          reason = "exponent does not fit in 32 bits")

namespace Refusal

variable {position : Nat} {rest fragment : List Char} {reason : String} {refusal other : Refusal}

/-- Where no term stands, all of the text is no term. -/
theorem not_isTerm_of_unreadable (h : unreadable.Explains position rest fragment reason)
    {term : Lexeme} (isTerm : term.IsTerm) : term.text ≠ fragment := by
  rintro rfl
  obtain ⟨nothing, rfl⟩ := h
  exact nothing term isTerm.standsAt_text

/-- A term without a sign is not one that has it. -/
theorem not_valueless_of_unsigned (h : unsigned.Explains position rest fragment reason) :
    ¬ valueless.Explains position rest fragment reason := by
  rintro ⟨term, isTerm, rfl, signed, -⟩
  obtain ⟨behind, -, other, isTerm', same, unsigned⟩ := h
  obtain rfl := isTerm'.eq_of_text isTerm same
  exact signed behind unsigned

/-- At most one refusal explains a fault. -/
theorem Explains.unique (h : refusal.Explains position rest fragment reason)
    (h' : other.Explains position rest fragment reason) : refusal = other := by
  cases refusal with
  | unreadable =>
    cases other with
    | unreadable => rfl
    | unsigned =>
      obtain ⟨-, -, term, isTerm, same, -⟩ := h'
      exact absurd same (not_isTerm_of_unreadable h isTerm)
    | valueless =>
      obtain ⟨term, isTerm, same, -⟩ := h'
      exact absurd same (not_isTerm_of_unreadable h isTerm)
  | unsigned =>
    cases other with
    | unreadable =>
      obtain ⟨-, -, term, isTerm, same, -⟩ := h
      exact absurd same (not_isTerm_of_unreadable h' isTerm)
    | unsigned => rfl
    | valueless => exact absurd h' (not_valueless_of_unsigned h)
  | valueless =>
    cases other with
    | unreadable =>
      obtain ⟨term, isTerm, same, -⟩ := h
      exact absurd same (not_isTerm_of_unreadable h' isTerm)
    | unsigned => exact absurd h (not_valueless_of_unsigned h')
    | valueless => rfl

end Refusal

/-- A fault that splits a text where it says: at a boundary of characters, behind a front that is
read, with a fragment that is the term there if one stands there, and refused for one reason. -/
structure TermError.Splits (e : TermError) (text front rest : List Char) : Prop where
  split : text = front ++ rest
  position_eq : e.position = byteLength front
  position_lt : e.position < byteLength text
  boundary : String.Pos.Raw.IsValid (String.ofList text) ⟨e.position⟩
  nonempty : e.fragment ≠ []
  occurs : e.fragment <+: rest
  accepted : ∃ placed : List (PlacedToken Float), Token.read front = .ok placed
  standing : ∀ term, StandsAt rest term → term.text = e.fragment
  malformed : ∃ reason, (e.toAreaError : AreaError Float) =
    .malformedTerm (String.ofList e.fragment) e.position reason ∧
      ∃! refusal : Refusal, refusal.Explains e.position rest e.fragment reason

namespace Reading

variable {text : List Char} {r : Reading Float} {e : TermError}

/-- Behind the start of a text, and only there, something has been read. -/
theorem Along.tokens_eq_nil_iff (h : r.Along text) : r.tokens = [] ↔ r.position = 0 := by
  obtain ⟨front, terms, tokens, -, position, cut, denotes, read⟩ := h
  rw [read, position]
  cases denotes with
  | nil =>
    cases cut
    exact ⟨fun _ => rfl, fun _ => rfl⟩
  | cons _ _ =>
    cases cut with
    | cons isTerm _ _ =>
      have taken := byteLength_pos isTerm.text_ne_nil
      rw [byteLength_append]
      exact ⟨nofun, fun absent => by omega⟩

/-- A state on the way has read the text before it. -/
theorem Along.exists_read (h : r.Along text) :
    ∃ front, text = front ++ r.rest ∧ r.position = byteLength front ∧
      Token.read front = .ok r.tokens := by
  obtain ⟨front, terms, tokens, whole, position, cut, denotes, read⟩ := h
  refine ⟨front, whole, position, ?_⟩
  rw [Token.read, cut.compact_text, Token.readFrom_of_cut cut denotes, read]

/-- The fault of a round is about what stands where the round starts. -/
theorem Along.refused (h : r.Along text) (left : r.rest ≠ []) (failed : r.round = .error e) :
    e.position = r.position ∧ e.fragment ≠ [] ∧ e.fragment <+: r.rest ∧
      (∀ term, StandsAt r.rest term → term.text = e.fragment) ∧
      ∃ refusal : Refusal, refusal.Explains r.position r.rest e.fragment e.fault.reason := by
  rcases round_eq_error failed with ⟨unreadable, rfl⟩ | ⟨term, rest, scanned, unsigned | valueless⟩
  · have nothing := Lexeme.scan_eq_none_iff.mp unreadable
    refine ⟨rfl, left, List.prefix_rfl, ?_, .unreadable, nothing, rfl⟩
    exact fun term stands => absurd stands (nothing term)
  · obtain ⟨later, noSign, rfl⟩ := unsigned
    have behind : 0 < r.position := Nat.pos_of_ne_zero (mt h.tokens_eq_nil_iff.mpr later)
    refine ⟨rfl, text_ne_nil_of_scan scanned, ⟨rest, text_append_of_scan scanned⟩, ?_, .unsigned,
      behind, rfl, term, isTerm_of_scan scanned, rfl, noSign⟩
    exact fun other stands => congrArg Lexeme.text (stands.eq_of_scan scanned)
  · obtain ⟨signed, fault, noValue, rfl⟩ := valueless
    refine ⟨rfl, text_ne_nil_of_scan scanned, ⟨rest, text_append_of_scan scanned⟩, ?_, .valueless,
      term, isTerm_of_scan scanned, rfl, ?_, ?_⟩
    · exact fun other stands => congrArg Lexeme.text (stands.eq_of_scan scanned)
    · intro behind
      exact signed.resolve_left (mt h.tokens_eq_nil_iff.mp (Nat.ne_of_gt behind))
    · rcases (Lexeme.token_eq_error_iff (isTerm_of_scan scanned)).mp noValue with
        ⟨rfl, infinite⟩ | ⟨finite, rfl, oversized⟩
      · exact .inl ⟨infinite, rfl⟩
      · exact .inr ⟨finite, oversized, rfl⟩

/-- The round that a reading fails in starts at a state on the way. -/
theorem exists_along_of_read_eq_error
    (failed : (Token.read text : Except TermError (List (PlacedToken Float))) = .error e) :
    ∃ r : Reading Float, r.Along (Text.compact text) ∧ r.rest ≠ [] ∧ r.round = .error e := by
  obtain ⟨r, leads, ⟨-, done⟩ | ⟨left, e', round, same⟩⟩ :=
    exists_of_run_eq_some ((run_start text).trans (congrArg some failed))
  · cases done
  · obtain rfl := Except.error.inj same
    exact ⟨r, (along_start _).leads leads, left, round⟩

end Reading

/-- The fragment of a fault is a part of the text without its blanks. -/
theorem Token.mem_compact_of_mem_fragment {text : List Char} {e : TermError}
    (failed : (read text : Except TermError (List (PlacedToken Float))) = .error e) {c : Char}
    (member : c ∈ e.fragment) : c ∈ Text.compact text := by
  obtain ⟨r, along, left, round⟩ := Reading.exists_along_of_read_eq_error failed
  obtain ⟨front, whole, -⟩ := along.exists_read
  obtain ⟨-, -, occurs, -⟩ := along.refused left round
  rw [whole]
  exact List.mem_append_right front (occurs.subset member)

/-- A text that is not read splits at its fault. -/
theorem Token.exists_splits_of_read_eq_error {text : List Char} {e : TermError}
    (failed : (read text : Except TermError (List (PlacedToken Float))) = .error e) :
    ∃ front rest, e.Splits (Text.compact text) front rest := by
  obtain ⟨r, along, left, round⟩ := Reading.exists_along_of_read_eq_error failed
  obtain ⟨front, whole, position, read⟩ := along.exists_read
  obtain ⟨same, nonempty, occurs, standing, refusal, explains⟩ := along.refused left round
  have longer := byteLength_pos left
  refine ⟨front, r.rest, whole, same.trans position, ?_, ?_, nonempty, occurs, ⟨_, read⟩, standing,
    _, rfl, refusal, same ▸ explains, fun other explains' => ?_⟩
  · rw [same, position, whole, byteLength_append]
    omega
  · rw [same]
    exact along.advances.boundary
  · exact explains'.unique (same ▸ explains)

/-- An exponent of 33 bits behind a term that is read. -/
theorem Token.exists_splits_of_read_eq_error_exponent :
    (read "x + 2x^4294967296".toList : Except TermError (List (PlacedToken Float))) =
        .error ⟨"+2x^4294967296".toList, 1, .exponentTooLarge⟩ ∧
      ∃ front rest, TermError.Splits ⟨"+2x^4294967296".toList, 1, .exponentTooLarge⟩
        (Text.compact "x + 2x^4294967296".toList) front rest := by
  have failed : (read "x + 2x^4294967296".toList : Except TermError (List (PlacedToken Float))) =
      .error ⟨"+2x^4294967296".toList, 1, .exponentTooLarge⟩ := by
    decide +kernel
  exact ⟨failed, exists_splits_of_read_eq_error failed⟩

end CurveArea
