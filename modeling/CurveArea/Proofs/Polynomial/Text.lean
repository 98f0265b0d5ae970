import CurveArea.Polynomial.Text
import CurveArea.Proofs.Binary64.Signs
import CurveArea.Proofs.Decimal.Notation
import CurveArea.Proofs.Polynomial.Entries
import CurveArea.Proofs.Term.Reading

/-!
# Written polynomials are read back

Every term that `format` writes is a term of the grammar whose value is the stored degree with the
stored coefficient, to the last bit. All but the first have a sign, so the text is cut where it was
put together, and reading it gives the terms that count and nothing else.
-/

namespace CurveArea.Polynomial

open Binary64 (value magnitude)
open Lexeme (Denotes DegreeIs MagnitudeIs IsTerm Cut applySign signText exponentText)

/-- The token of a stored term: a constant for the degree zero, a power otherwise. -/
def termToken (term : Degree × Float) : Token Float :=
  if term.1 = 0 then .constant term.2 else .power term.2 term.1

theorem degree_termToken (term : Degree × Float) : (termToken term).degree = term.1 := by
  rw [termToken]
  split
  · next constant => exact constant.symm
  · rfl

theorem coefficient_termToken (term : Degree × Float) :
    (termToken term).coefficient = term.2 := by
  rw [termToken]
  split <;> rfl

/-! ## One term -/

/-- The exponent that is written for a degree. -/
def writtenExponent (d : Degree) : Option (List Char) :=
  if d = 1 then none else some (Decimal.digitChars d.toNat)

theorem powerChars_eq (d : Degree) :
    powerChars d = Lexeme.variableChar :: exponentText (writtenExponent d) := by
  rw [powerChars, writtenExponent]
  split <;> rfl

theorem degreeIs_writtenExponent (d : Degree) : DegreeIs (writtenExponent d) d := by
  rw [writtenExponent]
  split
  · next first =>
    subst first
    exact .absent
  · exact .written (Decimal.isDigits_digitChars _) (Decimal.digitsValue_digitChars _)

theorem isDigits_of_mem_writtenExponent {d : Degree} {text : List Char}
    (member : text ∈ writtenExponent d) : Decimal.IsDigits text := by
  rw [writtenExponent] at member
  split at member
  · cases member
  · obtain rfl := Option.some.inj member
    exact Decimal.isDigits_digitChars _

theorem value_one : value 1.0 = .finite false 0x10000000000000 (-52) := by decide +kernel

theorem value_neg_one : value (-1.0) = .finite true 0x10000000000000 (-52) := by decide +kernel

variable {x : Float} {mantissa : Nat} {exponent : Int}

theorem eq_one_of_beq (same : (x == 1.0) = true) : x = 1.0 :=
  Binary64.eq_of_beq same (by decide +kernel)

theorem eq_neg_one_of_beq (same : (x == -1.0) = true) : x = -1.0 :=
  Binary64.eq_of_beq same (by decide +kernel)

/-- What is written for a term with a positive coefficient, behind any sign or none, is a term of
the grammar with the value of the coefficient under that sign. -/
theorem exists_lexeme_of_positive (d : Degree) (sign : Option Sign)
    (h : value x = .finite false mantissa exponent) (positive : 0 < mantissa) :
    ∃ lexeme : Lexeme, lexeme.sign = sign ∧ lexeme.IsTerm ∧
      lexeme.text = signText sign ++ termChars d x ∧
      lexeme.Denotes (termToken (d, applySign sign x)) := by
  obtain ⟨number, digits, places, isNumber, read, written⟩ := Decimal.plainChars_eq h positive
  have same : x = magnitude mantissa exponent :=
    Binary64.eq_of_value h (Binary64.value_magnitude (Binary64.parts_of_value h).1)
  have finite : Scalar.isFinite x = true := Binary64.isFinite_of_value h positive
  have magnitudeIs : MagnitudeIs (some number) x := by
    have exact : Scalar.ofDecimal digits places = x := read.trans same.symm
    rw [← exact] at finite ⊢
    exact .written isNumber finite
  have plain : Decimal.plainChars x = number := written
  rw [termChars, termToken]
  by_cases constant : d = 0
  · refine ⟨.constant sign number, rfl, .constant isNumber, ?_, ?_⟩
    · rw [if_pos constant, plain]
      rfl
    · rw [if_pos constant]
      exact .constant magnitudeIs
  · simp only [if_neg constant]
    by_cases one : (x == 1.0) = true
    · refine ⟨.power sign none (writtenExponent d), rfl,
        .power (by simp) fun _ => isDigits_of_mem_writtenExponent, ?_, ?_⟩
      · rw [if_pos one, powerChars_eq]
        simp [Lexeme.text]
      · rw [eq_one_of_beq one]
        exact .power .absent (degreeIs_writtenExponent d)
    · have notNegOne : ¬ (x == -1.0) = true := by
        intro negOne
        rw [eq_neg_one_of_beq negOne, value_neg_one] at h
        cases h
      refine ⟨.power sign (some number) (writtenExponent d), rfl,
        .power ?_ fun _ => isDigits_of_mem_writtenExponent, ?_, ?_⟩
      · rintro text ⟨rfl⟩
        exact ⟨digits, places, isNumber⟩
      · rw [if_neg one, if_neg notNegOne, plain, powerChars_eq]
        simp [Lexeme.text]
      · exact .power magnitudeIs (degreeIs_writtenExponent d)

/-- A negative coefficient is written as a sign and its magnitude. -/
theorem termChars_of_negative (d : Degree) (h : value x = .finite true mantissa exponent)
    (positive : 0 < mantissa) : termChars d x = '-' :: termChars d (-x) := by
  have negated := Binary64.value_neg h positive
  have plain : Decimal.plainChars x = '-' :: Decimal.plainChars (-x) := by
    simp only [Decimal.plainChars, Decimal.signed, h, negated, Decimal.signed.mark]
    rfl
  have notOne : ¬ (x == 1.0) = true := by
    intro one
    rw [eq_one_of_beq one, value_one] at h
    cases h
  have notNegOne : ¬ (-x == -1.0) = true := by
    intro negOne
    rw [eq_neg_one_of_beq negOne, value_neg_one] at negated
    cases negated
  have one_iff : (-x == 1.0) = true ↔ (x == -1.0) = true := by
    constructor
    · intro one
      rw [eq_one_of_beq one, value_one] at negated
      obtain ⟨rfl, rfl⟩ := Binary64.Value.finite.inj negated |>.2
      rw [Binary64.eq_of_value h value_neg_one]
      decide +kernel
    · intro negOne
      rw [eq_neg_one_of_beq negOne]
      decide +kernel
  simp only [termChars, if_neg notOne, if_neg notNegOne, one_iff]
  split
  · exact plain
  · split
    · rfl
    · rw [plain]
      rfl

/-- What is written for the magnitude of a negative coefficient, behind a minus, is a term of the
grammar with the value of the coefficient. -/
theorem exists_lexeme_of_negative (d : Degree) (h : value x = .finite true mantissa exponent)
    (positive : 0 < mantissa) :
    ∃ lexeme : Lexeme, lexeme.sign = some .minus ∧ lexeme.IsTerm ∧
      lexeme.text = '-' :: termChars d (-x) ∧ lexeme.Denotes (termToken (d, x)) := by
  have negated := Binary64.value_neg h positive
  obtain ⟨lexeme, sign, isTerm, text, denotes⟩ :=
    exists_lexeme_of_positive d (some .minus) negated positive
  rw [applySign, if_pos rfl, Binary64.neg_neg] at denotes
  exact ⟨lexeme, sign, isTerm, text, denotes⟩

/-! ## All terms -/

/-- A coefficient that is written: a finite number other than zero. -/
def IsWritten (c : Float) : Prop :=
  ∃ negative mantissa exponent, value c = .finite negative mantissa exponent ∧ 0 < mantissa

theorem isNegligible_of_value_zero {negative : Bool} (h : value x = .finite negative 0 exponent) :
    isNegligible x = true := by
  rcases Binary64.eq_zero_of_value h with rfl | rfl
  · decide +kernel
  · decide +kernel

/-- The terms of a polynomial that count can be written, if they are finite. -/
theorem isWritten_of_mem_significantTerms {p : Polynomial Float} {term : Degree × Float}
    (finite : ∀ t ∈ p.terms, t.2.isFinite = true) (member : term ∈ p.significantTerms) :
    IsWritten term.2 := by
  obtain ⟨stored, counts⟩ := List.mem_filter.mp member
  obtain ⟨negative, mantissa, exponent, h⟩ := Binary64.exists_value_of_isFinite (finite term stored)
  refine ⟨negative, mantissa, exponent, h, Nat.pos_of_ne_zero ?_⟩
  rintro rfl
  rw [isNegligible_of_value_zero h] at counts
  cases counts

/-- The first term is a term of the grammar. -/
theorem exists_lexeme_termChars (d : Degree) {c : Float} (written : IsWritten c) :
    ∃ lexeme : Lexeme, lexeme.IsTerm ∧ lexeme.text = termChars d c ∧
      lexeme.Denotes (termToken (d, c)) := by
  obtain ⟨negative, mantissa, exponent, h, positive⟩ := written
  cases negative with
  | false =>
    obtain ⟨lexeme, -, isTerm, text, denotes⟩ := exists_lexeme_of_positive d none h positive
    exact ⟨lexeme, isTerm, text, denotes⟩
  | true =>
    obtain ⟨lexeme, -, isTerm, text, denotes⟩ := exists_lexeme_of_negative d h positive
    rw [termChars_of_negative d h positive]
    exact ⟨lexeme, isTerm, text, denotes⟩

/-- A later term is, without its spaces, a term of the grammar with a sign. -/
theorem exists_lexeme_laterTermChars (d : Degree) {c : Float} (written : IsWritten c) :
    ∃ lexeme : Lexeme, lexeme.sign ≠ none ∧ lexeme.IsTerm ∧
      Text.compact (laterTermChars d c) = lexeme.text ∧ lexeme.Denotes (termToken (d, c)) := by
  obtain ⟨negative, mantissa, exponent, h, positive⟩ := written
  rw [laterTermChars]
  cases negative with
  | false =>
    obtain ⟨lexeme, sign, isTerm, text, denotes⟩ :=
      exists_lexeme_of_positive d (some .plus) h positive
    refine ⟨lexeme, by simp [sign], isTerm, ?_, denotes⟩
    rw [if_neg (by simp [Binary64.lt_zero_iff h positive]), ← isTerm.compact_text, text]
    rfl
  | true =>
    obtain ⟨lexeme, sign, isTerm, text, denotes⟩ := exists_lexeme_of_negative d h positive
    refine ⟨lexeme, by simp [sign], isTerm, ?_, denotes⟩
    rw [if_pos ((Binary64.lt_zero_iff h positive).mpr rfl), ← isTerm.compact_text, text]
    rfl

/-- The later terms are cut where they were put together. -/
theorem exists_cut_later {later : List (Degree × Float)} (written : ∀ t ∈ later, IsWritten t.2) :
    ∃ lexemes, Cut false lexemes
        (Text.compact (later.flatMap fun term => laterTermChars term.1 term.2)) ∧
      List.Forall₂ Denotes lexemes (later.map termToken) := by
  induction later with
  | nil => exact ⟨[], .nil, .nil⟩
  | cons t rest ih =>
    obtain ⟨lexemes, cut, denotes⟩ := ih fun s member => written s (List.mem_cons_of_mem t member)
    obtain ⟨lexeme, signed, isTerm, text, value⟩ :=
      exists_lexeme_laterTermChars t.1 (written t (by simp))
    refine ⟨lexeme :: lexemes, ?_, .cons value denotes⟩
    -- the sign of the term is what lets the cut in front of it end there
    rw [List.flatMap_cons, Text.compact_append, text]
    exact .cons isTerm (.inr signed) cut

/-- What is written for the terms that count is cut into terms with their values. -/
theorem exists_cut_formatChars {p : Polynomial Float} (some_term : p.significantTerms ≠ [])
    (finite : ∀ t ∈ p.terms, t.2.isFinite = true) :
    ∃ lexemes, Cut true lexemes (Text.compact p.formatChars) ∧
      List.Forall₂ Denotes lexemes (p.significantTerms.reverse.map termToken) := by
  have written : ∀ t ∈ p.significantTerms.reverse, IsWritten t.2 := by
    intro t member
    exact isWritten_of_mem_significantTerms finite (List.mem_reverse.mp member)
  rw [formatChars]
  cases terms : p.significantTerms.reverse with
  | nil => exact absurd (List.reverse_eq_nil_iff.mp terms) some_term
  | cons first later =>
    rw [terms] at written
    obtain ⟨lexemes, cut, denotes⟩ :=
      exists_cut_later fun t member => written t (List.mem_cons_of_mem first member)
    obtain ⟨lexeme, isTerm, text, value⟩ :=
      exists_lexeme_termChars first.1 (written first (by simp))
    refine ⟨lexeme :: lexemes, ?_, .cons value denotes⟩
    rw [Text.compact_append, ← text, isTerm.compact_text]
    exact .cons isTerm (.inl rfl) cut

/-! ## The whole text -/

/-- The tokens of what is written are those of the terms that count, from the highest degree down. -/
theorem exists_read_formatChars {p : Polynomial Float} (some_term : p.significantTerms ≠ [])
    (finite : ∀ t ∈ p.terms, t.2.isFinite = true) :
    ∃ placed, Token.read p.formatChars = .ok placed ∧
      placed.map (·.token) = p.significantTerms.reverse.map termToken := by
  obtain ⟨lexemes, cut, denotes⟩ := exists_cut_formatChars some_term finite
  exact ⟨_, Token.readFrom_of_cut cut denotes, Token.map_token_place denotes 0⟩

theorem sorted_significantTerms (p : Polynomial Float) :
    p.significantTerms.Pairwise fun s t => s.1 < t.1 :=
  p.pruned.sorted

theorem ofTokens_eq {placed : List (PlacedToken Float)} {terms : List (Degree × Float)}
    (tokens : placed.map (·.token) = terms.map termToken) : ofTokens placed = ofTerms terms := by
  have degrees : placed.map (fun t => (t.token.degree, t.token.coefficient)) = terms := by
    have pairs := congrArg (List.map fun token => (token.degree, token.coefficient)) tokens
    simpa [Function.comp_def, degree_termToken, coefficient_termToken] using pairs
  rw [ofTokens, degrees]

/-- Adding up the terms that count gives the polynomial without the others. -/
theorem ofTerms_significantTerms {p : Polynomial Float}
    (finite : ∀ t ∈ p.terms, t.2.isFinite = true) :
    ofTerms p.significantTerms.reverse = p.pruned := by
  have fromZero : ∀ t ∈ p.significantTerms, (t.1, Scalar.zero + t.2) = t := by
    intro t member
    obtain ⟨negative, mantissa, exponent, h, positive⟩ :=
      isWritten_of_mem_significantTerms finite member
    exact Prod.ext rfl (Binary64.zero_add_of_value h positive)
  apply eq_of_terms
  rw [terms_ofTerms_of_sorted_reverse (List.pairwise_reverse.mpr p.sorted_significantTerms),
    List.map_reverse, List.reverse_reverse, List.map_congr_left fromZero]
  exact List.map_id' _

/-- Terms with finite coefficients equal themselves. -/
theorem beq_self_of_isFinite {terms : List (Degree × Float)}
    (finite : ∀ t ∈ terms, t.2.isFinite = true) : (terms == terms) = true := by
  induction terms with
  | nil => rfl
  | cons t rest ih =>
    obtain ⟨negative, mantissa, exponent, h⟩ :=
      Binary64.exists_value_of_isFinite (finite t (by simp))
    have coefficient : (t.2 == t.2) = true := Binary64.beq_self_of_value h
    have degree : (t.1 == t.1) = true := beq_self_eq_true t.1
    have head : (t == t) = true := Bool.and_eq_true_iff.mpr ⟨degree, coefficient⟩
    rw [List.cons_beq_cons, head, Bool.true_and]
    exact ih fun s member => finite s (List.mem_cons_of_mem t member)

theorem beq_self_of_written {terms : List (Degree × Float)}
    (written : ∀ t ∈ terms, IsWritten t.2) : (terms == terms) = true := by
  apply beq_self_of_isFinite
  intro t member
  obtain ⟨negative, mantissa, exponent, h, positive⟩ := written t member
  exact Binary64.isFinite_of_value h positive

/-- The text of the zero polynomial is read as a constant that does not count. -/
theorem parse_zero_text : ∃ q : Polynomial Float, parse "0" = .ok q ∧ q.pruned.terms = [] := by
  have number : Decimal.IsNumber ['0'] 0 0 := .whole (Decimal.isDigits_digitChars 0)
  have cut : Cut true [.constant none ['0']] ['0'] := .cons (.constant number) (.inl rfl) .nil
  have value : MagnitudeIs (some ['0']) (Scalar.ofDecimal 0 0 : Float) :=
    .written number (by decide +kernel)
  have read : Token.read "0".toList = .ok (Token.place 0 _ _) :=
    Token.readFrom_of_cut cut (.cons (.constant value) .nil)
  refine ⟨ofTerms [(0, Scalar.ofDecimal 0 0)], ?_, ?_⟩
  · simp only [parse, read]
    rfl
  · decide +kernel

/-- What `format` writes is read term by term as the stored degrees and coefficients of the terms
that count, from the highest degree down, so parsing it gives exactly the polynomial without the
others. If no term counts, a zero is written and read as nothing that counts. -/
theorem parse_format (p : Polynomial Float) (finite : ∀ t ∈ p.terms, t.2.isFinite = true) :
    (p.significantTerms ≠ [] →
      (∃ placed, Token.read p.format.toList = .ok placed ∧
        placed.map (·.token) = p.significantTerms.reverse.map termToken ∧
        (placed.map (·.token.degree)).Pairwise (· > ·)) ∧
      ∃ q, parse p.format = .ok q ∧ q = p.pruned ∧ (q == p.pruned) = true) ∧
    (p.significantTerms = [] →
      p.format = "0" ∧ ∃ q : Polynomial Float, parse p.format = .ok q ∧ q.pruned.terms = []) := by
  have text : p.format.toList = p.formatChars := String.toList_ofList
  constructor
  · intro some_term
    obtain ⟨placed, read, tokens⟩ := exists_read_formatChars some_term finite
    rw [← text] at read
    refine ⟨⟨placed, read, tokens, ?_⟩, p.pruned, ?_, rfl, ?_⟩
    · have degrees : placed.map (·.token.degree) = p.significantTerms.reverse.map (·.1) := by
        have same := congrArg (List.map Token.degree) tokens
        simpa [Function.comp_def, degree_termToken] using same
      rw [degrees, List.pairwise_map]
      exact List.pairwise_reverse.mpr p.sorted_significantTerms
    · simp only [parse, read]
      rw [ofTokens_eq tokens, ofTerms_significantTerms finite]
    · exact beq_self_of_written fun _ => isWritten_of_mem_significantTerms finite
  · intro none
    have zero : p.format = "0" := by
      simp [format, formatChars, none]
    rw [zero]
    exact ⟨rfl, parse_zero_text⟩

/-- A negative constant, a coefficient of one and a negligible one between them. -/
theorem parse_format_mixed :
    (∀ t ∈ (ofTerms [(0, -0.1), (1, 1e-11), (2, 1.0)]).terms, t.2.isFinite = true) ∧
    (ofTerms [(0, -0.1), (1, 1e-11), (2, (1.0 : Float))]).significantTerms ≠ [] ∧
    ∃ q, parse (ofTerms [(0, -0.1), (1, 1e-11), (2, 1.0)]).format = .ok q ∧
      q = (ofTerms [(0, -0.1), (1, 1e-11), (2, (1.0 : Float))]).pruned ∧
      q.terms = [(0, -0.1), (2, 1.0)] := by
  have finite : ∀ t ∈ (ofTerms [(0, -0.1), (1, 1e-11), (2, (1.0 : Float))]).terms,
      t.2.isFinite = true := by decide +kernel
  have some_term : (ofTerms [(0, -0.1), (1, 1e-11), (2, (1.0 : Float))]).significantTerms ≠ [] := by
    decide +kernel
  obtain ⟨-, q, read, same, -⟩ := (parse_format _ finite).1 some_term
  refine ⟨finite, some_term, q, read, same, ?_⟩
  rw [same]
  decide +kernel

end CurveArea.Polynomial
