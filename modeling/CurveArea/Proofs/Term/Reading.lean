import CurveArea.Proofs.Term.Grammar
import CurveArea.Term.Token
import Mathlib.Data.List.Forall2

/-!
# Reading accepts a grammar

A text is read if and only if it can be cut into terms of the grammar, all but the first with a
sign, whose numbers are finite and whose exponents have 32 bits. There is only one such cut, and
what is read are the values of its terms in their order, placed one behind the other. Neither the
cut nor the value of a term is defined through the scanner.
-/

namespace CurveArea

open Decimal (IsDigits IsNumber digitsValue)

namespace Lexeme

section Values

variable {α : Type} [Scalar α]

/-- The number that stands in front of the variable or alone: the written one, rounded, which has
to be finite, and one if there is none. -/
inductive MagnitudeIs : Option (List Char) → α → Prop
  | absent : MagnitudeIs none Scalar.one
  | written {number : List Char} {digits places : Nat} : IsNumber number digits places →
      Scalar.isFinite (Scalar.ofDecimal digits places : α) = true →
      MagnitudeIs (some number) (Scalar.ofDecimal digits places)

/-- The degree that an exponent names. A number beyond the degrees is the value of none. -/
inductive DegreeIs : Option (List Char) → Degree → Prop
  | absent : DegreeIs none 1
  | written {digits : List Char} {degree : Degree} : IsDigits digits →
      digitsValue digits = degree.toNat → DegreeIs (some digits) degree

/-- What a term of the grammar stands for. -/
inductive Denotes : Lexeme → Token α → Prop
  | constant {sign : Option Sign} {number : List Char} {magnitude : α} :
      MagnitudeIs (some number) magnitude →
      Denotes (.constant sign number) (.constant (applySign sign magnitude))
  | power {sign : Option Sign} {number exponent : Option (List Char)} {magnitude : α}
      {degree : Degree} : MagnitudeIs number magnitude → DegreeIs exponent degree →
      Denotes (.power sign number exponent) (.power (applySign sign magnitude) degree)

theorem ofNat?_eq_some_iff {n : Nat} {degree : Degree} :
    Degree.ofNat? n = some degree ↔ n = degree.toNat := by
  have bound := degree.toNat_lt
  have limit : Degree.max.toNat = 4294967295 := rfl
  unfold Degree.ofNat?
  split
  · next fits =>
    rw [Option.some.injEq, ← UInt32.toNat_inj, UInt32.toNat_ofNat_of_lt' (by rw [UInt32.size]; omega)]
  · next beyond => simp; omega

theorem magnitude_eq_ok_iff {number : Option (List Char)} {value : α}
    (h : ∀ text ∈ number, ∃ digits places, IsNumber text digits places) :
    magnitude number = .ok value ↔ MagnitudeIs number value := by
  constructor
  · intro found
    cases number with
    | none =>
      obtain rfl := Except.ok.inj found
      exact .absent
    | some text =>
      obtain ⟨digits, places, isNumber⟩ := h text rfl
      simp only [magnitude, isNumber.literalDigits_eq, isNumber.literalPlaces_eq] at found
      split at found
      · next finite =>
        obtain rfl := Except.ok.inj found
        exact .written isNumber finite
      · simp at found
  · intro denotes
    cases denotes with
    | absent => rfl
    | written isNumber finite =>
      simp [magnitude, isNumber.literalDigits_eq, isNumber.literalPlaces_eq, finite]

theorem degree_eq_ok_iff {exponent : Option (List Char)} {value : Degree}
    (h : ∀ text ∈ exponent, IsDigits text) :
    degree exponent = .ok value ↔ DegreeIs exponent value := by
  constructor
  · intro found
    cases exponent with
    | none =>
      obtain rfl := Except.ok.inj found
      exact .absent
    | some text =>
      simp only [degree] at found
      split at found
      · next named =>
        obtain rfl := Except.ok.inj found
        exact .written (h text rfl) (ofNat?_eq_some_iff.mp named)
      · simp at found
  · intro denotes
    cases denotes with
    | absent => rfl
    | written _ same => simp [degree, ofNat?_eq_some_iff.mpr same]

/-- The value that a term is given is the one that the grammar says. -/
theorem token_eq_ok_iff {lexeme : Lexeme} {value : Token α} (h : lexeme.IsTerm) :
    lexeme.token = .ok value ↔ lexeme.Denotes value := by
  cases h with
  | @constant sign number digits places isNumber =>
    have single : ∀ text ∈ some number, ∃ digits places, IsNumber text digits places := by
      rintro text ⟨rfl⟩
      exact ⟨digits, places, isNumber⟩
    constructor
    · intro found
      simp only [token] at found
      cases known : (magnitude (some number) : Except TermFault α) with
      | error fault => simp [known, bind, Except.bind] at found
      | ok magnitude =>
        simp only [known, bind, Except.bind, pure, Except.pure] at found
        obtain rfl := Except.ok.inj found
        exact .constant ((magnitude_eq_ok_iff single).mp known)
    · rintro ⟨magnitudeIs⟩
      simp [token, (magnitude_eq_ok_iff single).mpr magnitudeIs, bind, Except.bind, pure,
        Except.pure]
  | @power sign number exponent hnumber hexponent =>
    constructor
    · intro found
      simp only [token] at found
      cases known : (magnitude number : Except TermFault α) with
      | error fault => simp [known, bind, Except.bind] at found
      | ok magnitude =>
        cases named : degree exponent with
        | error fault => simp [known, named, bind, Except.bind] at found
        | ok d =>
          simp only [known, named, bind, Except.bind, pure, Except.pure] at found
          obtain rfl := Except.ok.inj found
          exact .power ((magnitude_eq_ok_iff hnumber).mp known)
            ((degree_eq_ok_iff hexponent).mp named)
    · rintro (_ | ⟨magnitudeIs, degreeIs⟩)
      simp [token, (magnitude_eq_ok_iff hnumber).mpr magnitudeIs,
        (degree_eq_ok_iff hexponent).mpr degreeIs, bind, Except.bind, pure, Except.pure]

end Values

/-- `Cut leading terms text`: the text is the terms one behind the other, each of the grammar and
each with a sign, except that the first may go without one if `leading`. -/
inductive Cut : (leading : Bool) → List Lexeme → List Char → Prop
  | nil {leading : Bool} : Cut leading [] []
  | cons {leading : Bool} {term : Lexeme} {terms : List Lexeme} {rest : List Char} :
      term.IsTerm → (leading = true ∨ term.sign ≠ none) → Cut false terms rest →
      Cut leading (term :: terms) (term.text ++ rest)

/-- What is cut into terms holds no other characters than theirs. -/
theorem Cut.isTermChar_of_mem {leading : Bool} {terms : List Lexeme} {text : List Char}
    (h : Cut leading terms text) : ∀ c ∈ text, isTermChar c = true := by
  induction h with
  | nil => exact nofun
  | cons isTerm _ _ ih =>
    intro c member
    rcases List.mem_append.mp member with inside | behind
    · exact isTerm.isTermChar_of_mem inside
    · exact ih c behind

theorem head?_text_append {lexeme : Lexeme} {sign : Sign} (rest : List Char)
    (signed : lexeme.sign = some sign) : (lexeme.text ++ rest).head? = some sign.char := by
  cases lexeme <;> simp_all [Lexeme.sign, text, signText]

theorem isSome_ofChar?_char (sign : Sign) : (Sign.ofChar? sign.char).isSome = true := by
  cases sign <;> rfl

/-- A text all of whose terms have signs may follow a term. -/
theorem Cut.endsTerm {terms : List Lexeme} {rest : List Char} (h : Cut false terms rest) :
    EndsTerm rest := by
  cases h with
  | nil => exact endsTerm_nil
  | @cons _ term _ more _ signed _ =>
    obtain ⟨sign, hasSign⟩ := Option.ne_none_iff_exists'.mp (signed.resolve_left (by simp))
    intro c member
    rw [head?_text_append more hasSign] at member
    obtain rfl := Option.some.inj member
    exact isSome_ofChar?_char sign

/-- The first term of a cut is the one that scanning finds. -/
theorem Cut.scan_eq {leading : Bool} {term : Lexeme} {terms : List Lexeme} {text : List Char}
    (h : Cut leading (term :: terms) text) :
    ∃ rest, scan text = some (term, rest) ∧ (leading = true ∨ term.sign ≠ none) ∧
      Cut false terms rest := by
  cases h with
  | cons isTerm signed more => exact ⟨_, scan_text_append isTerm more.endsTerm, signed, more⟩

theorem scan_nil : scan [] = none := rfl

/-- A text can be cut in one way only. -/
theorem Cut.unique {leading : Bool} {terms others : List Lexeme} {text : List Char}
    (h : Cut leading terms text) (h' : Cut leading others text) : others = terms := by
  induction terms generalizing others leading text with
  | nil =>
    cases h
    cases others with
    | nil => rfl
    | cons term others =>
      obtain ⟨rest, scanned, -⟩ := h'.scan_eq
      simp [scan_nil] at scanned
  | cons term terms ih =>
    obtain ⟨rest, scanned, -, more⟩ := h.scan_eq
    cases others with
    | nil =>
      cases h'
      simp [scan_nil] at scanned
    | cons other others =>
      obtain ⟨rest', scanned', -, more'⟩ := h'.scan_eq
      rw [scanned] at scanned'
      obtain ⟨rfl, rfl⟩ := Prod.mk.inj (Option.some.inj scanned')
      rw [ih more more']

end Lexeme

namespace Token

open Lexeme

variable {α : Type} [Scalar α]

/-- The values of terms that stand one behind the other from a byte offset on. -/
def place (position : Nat) : List Lexeme → List (Token α) → List (PlacedToken α)
  | term :: terms, token :: tokens =>
    ⟨token, position, term.text⟩ :: place (position + byteLength term.text) terms tokens
  | _, _ => []

theorem map_token_place {terms : List Lexeme} {tokens : List (Token α)}
    (denotes : List.Forall₂ Denotes terms tokens) (position : Nat) :
    (place position terms tokens).map (·.token) = tokens := by
  induction denotes generalizing position with
  | nil => rfl
  | cons _ _ ih => rw [place, List.map_cons, ih]

theorem readFrom_nil (position : Nat) (leading : Bool) :
    (readFrom position leading [] : Except TermError (List (PlacedToken α))) = .ok [] := by
  rw [readFrom, if_pos rfl]

/-- One round of reading: the scanned term in front of what is read behind it. -/
theorem readFrom_of_scan {position : Nat} {leading : Bool} {text rest : List Char}
    {term : Lexeme} {token : Token α} (scanned : scan text = some (term, rest))
    (signed : leading = true ∨ term.sign ≠ none) (denotes : term.Denotes token) :
    readFrom position leading text =
      (readFrom (position + byteLength term.text) false rest).map
        (⟨token, position, term.text⟩ :: ·) := by
  have nonempty : text ≠ [] := by
    rintro rfl
    simp [scan_nil] at scanned
  have allowed : (!leading && term.sign.isNone) = false := by
    rcases signed with rfl | signed
    · rfl
    · simp [Option.isSome_iff_ne_none.mpr signed]
  have value := (token_eq_ok_iff (isTerm_of_scan scanned)).mpr denotes
  rw [readFrom, if_neg nonempty]
  split
  · next none => simp [none] at scanned
  · next term' rest' scanned' =>
    rw [scanned] at scanned'
    obtain ⟨rfl, rfl⟩ := Prod.mk.inj (Option.some.inj scanned')
    rw [if_neg (by simp [allowed]), value]
    rfl

/-- A text that is cut into terms with values is read as these. -/
theorem readFrom_of_cut {position : Nat} {leading : Bool} {terms : List Lexeme}
    {text : List Char} {tokens : List (Token α)} (cut : Cut leading terms text)
    (denotes : List.Forall₂ Denotes terms tokens) :
    readFrom position leading text = .ok (place position terms tokens) := by
  induction denotes generalizing position leading text with
  | nil =>
    cases cut
    exact readFrom_nil position leading
  | @cons term token terms tokens value _ ih =>
    obtain ⟨rest, scanned, signed, more⟩ := cut.scan_eq
    rw [readFrom_of_scan scanned signed value, ih more]
    rfl

/-- What is read are the values of the terms of a cut. -/
theorem cut_of_readFrom {position : Nat} {leading : Bool} {text : List Char}
    {placed : List (PlacedToken α)} (h : readFrom position leading text = .ok placed) :
    ∃ terms tokens, Cut leading terms text ∧ List.Forall₂ Denotes terms tokens ∧
      placed = place position terms tokens := by
  fun_induction readFrom (α := α) position leading text generalizing placed with
  | case1 position leading =>
    obtain rfl := Except.ok.inj h
    exact ⟨[], [], .nil, .nil, rfl⟩
  | case2 => simp at h
  | case3 => simp at h
  | case4 => simp at h
  | case5 position leading text nonempty term rest scanned allowed token value ih =>
    have signed : leading = true ∨ term.sign ≠ none := by
      cases leading with
      | true => exact .inl rfl
      | false => exact .inr (by simpa using allowed)
    have isTerm := isTerm_of_scan scanned
    cases found : (readFrom (position + byteLength term.text) false rest :
        Except TermError (List (PlacedToken α))) with
    | error e => simp [found, bind, Except.bind] at h
    | ok later =>
      simp only [found, bind, Except.bind, pure, Except.pure] at h
      obtain rfl := Except.ok.inj h
      obtain ⟨terms, tokens, cut, denotes, rfl⟩ := ih found
      refine ⟨term :: terms, token :: tokens, ?_, ?_, rfl⟩
      · rw [← text_append_of_scan scanned]
        exact .cons isTerm signed cut
      · exact .cons ((token_eq_ok_iff isTerm).mp value) denotes

/-- A text that is read holds only blanks and characters of terms. -/
theorem isTermChar_of_read {text : List Char} {placed : List (PlacedToken α)}
    (h : read text = .ok placed) {c : Char} (member : c ∈ text) (visible : Text.isBlank c = false) :
    isTermChar c = true := by
  obtain ⟨terms, tokens, cut, -, -⟩ := cut_of_readFrom h
  refine cut.isTermChar_of_mem c (List.mem_filter.mpr ⟨member, ?_⟩)
  rw [visible, Bool.not_false]

/-- A text is read if and only if without its blanks it can be cut into terms of the grammar that
all have a value. No text can be cut in two ways, and what is read are the values of the terms. -/
theorem read_iff_cut (text : List Char) :
    ((∃ placed, (read text : Except TermError (List (PlacedToken Float))) = .ok placed) ↔
      ∃ terms, Cut true terms (Text.compact text) ∧
        ∃ tokens : List (Token Float), List.Forall₂ Denotes terms tokens) ∧
    ∀ terms, Cut true terms (Text.compact text) →
      (∀ others, Cut true others (Text.compact text) → others = terms) ∧
      ∀ tokens : List (Token Float), List.Forall₂ Denotes terms tokens →
        read text = .ok (place 0 terms tokens) := by
  refine ⟨⟨?_, ?_⟩, ?_⟩
  · rintro ⟨placed, found⟩
    obtain ⟨terms, tokens, cut, denotes, -⟩ := cut_of_readFrom found
    exact ⟨terms, cut, tokens, denotes⟩
  · rintro ⟨terms, cut, tokens, denotes⟩
    exact ⟨_, readFrom_of_cut cut denotes⟩
  · intro terms cut
    exact ⟨fun others => cut.unique, fun tokens => readFrom_of_cut cut⟩

/-- A power without a number, a number with a point before a bare variable, and a constant. -/
theorem read_iff_cut_cubic :
    ∃ placed, (read "-x^3 + 2.5x - 4".toList : Except TermError (List (PlacedToken Float))) =
        .ok placed ∧
      placed.map (·.token) = [.power (-1.0) 3, .power 2.5 1, .constant (-4.0)] := by
  have two_point_five : IsNumber ['2', '.', '5'] 25 1 :=
    .pointed (by decide : IsDigits ['2']) (by decide : IsDigits ['5']).2
  have four : IsNumber ['4'] 4 0 := .whole (by decide)
  have cube : IsDigits ['3'] := by decide
  have cut : Cut true [.power (some .minus) none (some ['3']),
      .power (some .plus) (some ['2', '.', '5']) none, .constant (some .minus) ['4']]
      (Text.compact "-x^3 + 2.5x - 4".toList) := by
    apply Cut.cons (.power (by simp) (by simpa using cube)) (.inl rfl)
    apply Cut.cons (.power (by simpa using ⟨_, _, two_point_five⟩) (by simp)) (.inr (by decide))
    exact Cut.cons (.constant four) (.inr (by decide)) .nil
  have denotes : List.Forall₂ Denotes [.power (some .minus) none (some ['3']),
      .power (some .plus) (some ['2', '.', '5']) none, .constant (some .minus) ['4']]
      [Token.power (applySign (some .minus) (Scalar.one : Float)) 3,
        .power (applySign (some .plus) (Scalar.ofDecimal 25 1)) 1,
        .constant (applySign (some .minus) (Scalar.ofDecimal 4 0))] := by
    refine .cons (.power .absent (.written cube rfl)) (.cons (.power ?_ .absent) (.cons ?_ .nil))
    · exact .written two_point_five (by decide +kernel)
    · exact .constant (.written four (by decide +kernel))
  refine ⟨_, ((read_iff_cut _).2 _ cut).2 _ denotes, ?_⟩
  rw [map_token_place denotes]
  decide +kernel

end Token

end CurveArea
