import CurveArea.Proofs.Binary64.Unsigned
import CurveArea.Proofs.Polynomial.Text

/-!
# Parsed coefficients beyond the range of the numbers

Every number that is read is finite, but the terms of one degree are added up, and a sum may leave
the range of the numbers. What has left it never comes back. So the coefficients of a parsed
polynomial are finite if and only if no sum overflows on the way. Otherwise the polynomial is
written in letters that no term has, and its text is refused.
-/

namespace CurveArea

open Lexeme (isTermChar)

theorem Lexeme.isFinite_of_denotes {term : Lexeme} {token : Token Float}
    (h : term.Denotes token) : token.coefficient.isFinite = true := by
  have magnitude : ∀ {number : Option (List Char)} {value : Float}, MagnitudeIs number value →
      value.isFinite = true := by
    rintro number value (_ | ⟨-, finite⟩)
    · decide +kernel
    · exact finite
  have signed : ∀ (sign : Option Sign) {value : Float}, value.isFinite = true →
      (applySign sign value).isFinite = true := by
    intro sign value finite
    rw [applySign]
    split
    · exact (Binary64.isFinite_neg value).trans finite
    · exact finite
  cases h with
  | constant value => exact signed _ (magnitude value)
  | power value _ => exact signed _ (magnitude value)

/-- Every coefficient that is read is finite. -/
theorem Token.isFinite_of_read {text : List Char} {placed : List (PlacedToken Float)}
    (h : read text = .ok placed) : ∀ t ∈ placed, t.token.coefficient.isFinite = true := by
  obtain ⟨terms, tokens, -, denotes, rfl⟩ := cut_of_readFrom h
  intro t member
  have token : t.token ∈ tokens := by
    rw [← map_token_place denotes 0]
    exact List.mem_map_of_mem member
  have finite : ∀ {terms : List Lexeme} {tokens : List (Token Float)},
      List.Forall₂ Lexeme.Denotes terms tokens →
        ∀ token ∈ tokens, token.coefficient.isFinite = true := by
    intro terms tokens denotes
    induction denotes with
    | nil => exact nofun
    | cons value _ ih => exact List.forall_mem_cons.mpr ⟨Lexeme.isFinite_of_denotes value, ih⟩
  exact finite denotes _ token

namespace Polynomial

theorem parse_eq_ok_iff {text : String} {p : Polynomial Float} :
    parse text = .ok p ↔ ∃ placed, Token.read text.toList = .ok placed ∧ ofTokens placed = p := by
  rw [parse]
  cases (Token.read text.toList : Except TermError (List (PlacedToken Float))) with
  | error e => simp
  | ok placed => simp

/-! ## Sums of coefficients -/

/-- The coefficients of one degree among tokens, added up in their order. -/
def degreeSum (placed : List (PlacedToken Float)) (d : Degree) : Float :=
  (placed.filter (·.token.degree = d)).foldl (fun sum t => sum + t.token.coefficient) 0.0

theorem coefficient_ofTokens (placed : List (PlacedToken Float)) (d : Degree) :
    (ofTokens placed).coefficient d = degreeSum placed d := by
  rw [ofTokens, coefficient_ofTerms, List.filter_map, List.foldl_map]
  rfl

theorem isFinite_of_isFinite_foldl {β : Type} (f : β → Float) {added : List β} {start : Float}
    (h : (added.foldl (fun sum t => sum + f t) start).isFinite = true) : start.isFinite = true := by
  induction added generalizing start with
  | nil => exact h
  | cons t rest ih => exact Binary64.isFinite_of_isFinite_add (ih h)

/-- A sum that has left the range of the numbers never comes back to it. -/
theorem isFinite_degreeSum_of_prefix {front placed : List (PlacedToken Float)} {d : Degree}
    (initial : front <+: placed) (h : (degreeSum placed d).isFinite = true) :
    (degreeSum front d).isFinite = true := by
  obtain ⟨back, rfl⟩ := initial
  rw [degreeSum, List.filter_append, List.foldl_append] at h
  exact isFinite_of_isFinite_foldl (fun t : PlacedToken Float => t.token.coefficient) h

variable {p : Polynomial Float}

theorem isFinite_terms_iff :
    (∀ t ∈ p.terms, t.2.isFinite = true) ↔ ∀ d, (p.coefficient d).isFinite = true := by
  constructor
  · intro finite d
    by_cases stored : d ∈ p.degrees
    · obtain ⟨t, member, rfl⟩ := List.mem_map.mp stored
      rw [coefficient_eq_of_mem member]
      exact finite t member
    · rw [coefficient_eq_zero_of_notMem stored]
      rfl
  · intro finite t member
    rw [← coefficient_eq_of_mem member]
    exact finite t.1

/-! ## The text of what is not finite -/

variable {c : Float}

/-- What counts as zero is finite. -/
theorem isFinite_of_isNegligible (h : isNegligible c = true) : c.isFinite = true := by
  have below : c.abs < (1e-10 : Float) := of_decide_eq_true h
  have small := Binary64.le_of_lt below
  by_contra infinite
  rw [Bool.not_eq_true, ← Binary64.isFinite_abs] at infinite
  by_cases number : c.abs = Float.nan
  · rw [number] at small
    exact Binary64.not_nan_le _ small
  · rw [(Binary64.unsigned_abs c).eq_inf infinite number] at small
    have same := Binary64.eq_inf_of_inf_le small
    have finite : (1e-10 : Float).isFinite = true := by decide +kernel
    rw [same] at finite
    cases finite

/-- A letter that belongs to no term. -/
def HasLetter (text : List Char) : Prop :=
  ∃ letter ∈ text, isTermChar letter = false ∧ Text.isBlank letter = false

theorem hasLetter_append_left {text : List Char} (more : List Char) (h : HasLetter text) :
    HasLetter (text ++ more) := by
  obtain ⟨letter, member, foreign⟩ := h
  exact ⟨letter, List.mem_append_left more member, foreign⟩

theorem hasLetter_append_right {text : List Char} (before : List Char) (h : HasLetter text) :
    HasLetter (before ++ text) := by
  obtain ⟨letter, member, foreign⟩ := h
  exact ⟨letter, List.mem_append_right before member, foreign⟩

theorem hasLetter_plainChars (infinite : c.isFinite = false) :
    HasLetter (Decimal.plainChars c) := by
  rw [Decimal.plainChars, Decimal.signed]
  cases parts : Binary64.value c with
  | nan => exact ⟨'N', by simp, by decide⟩
  | infinite negative => exact ⟨'f', by simp, by decide⟩
  | finite negative mantissa exponent =>
    exfalso
    rcases Nat.eq_zero_or_pos mantissa with rfl | positive
    · rcases Binary64.eq_zero_of_value parts with rfl | rfl <;> cases infinite
    · rw [Binary64.isFinite_of_value parts positive] at infinite
      cases infinite

theorem hasLetter_termChars (d : Degree) (infinite : c.isFinite = false) :
    HasLetter (termChars d c) := by
  rw [termChars]
  split
  · exact hasLetter_plainChars infinite
  · split
    · next one =>
      rw [eq_one_of_beq one] at infinite
      cases infinite
    · split
      · next minusOne =>
        rw [eq_neg_one_of_beq minusOne] at infinite
        cases infinite
      · exact hasLetter_append_left _ (hasLetter_plainChars infinite)

theorem hasLetter_laterTermChars (d : Degree) (infinite : c.isFinite = false) :
    HasLetter (laterTermChars d c) := by
  rw [laterTermChars]
  split
  · exact hasLetter_append_right [' ', '-', ' ']
      (hasLetter_termChars d ((Binary64.isFinite_neg c).trans infinite))
  · exact hasLetter_append_right [' ', '+', ' '] (hasLetter_termChars d infinite)

theorem hasLetter_formatChars {t : Degree × Float} (member : t ∈ p.terms)
    (infinite : t.2.isFinite = false) : HasLetter p.formatChars := by
  have counts : t ∈ p.significantTerms.reverse := by
    rw [List.mem_reverse]
    refine List.mem_filter.mpr ⟨member, ?_⟩
    cases negligible : isNegligible t.2 with
    | false => rfl
    | true =>
      rw [isFinite_of_isNegligible negligible] at infinite
      cases infinite
  rw [formatChars]
  cases terms : p.significantTerms.reverse with
  | nil =>
    rw [terms] at counts
    cases counts
  | cons first later =>
    rw [terms] at counts
    rcases List.mem_cons.mp counts with rfl | behind
    · exact hasLetter_append_left _ (hasLetter_termChars _ infinite)
    · obtain ⟨letter, inside, foreign⟩ := hasLetter_laterTermChars t.1 infinite
      exact hasLetter_append_right _
        ⟨letter, List.mem_flatMap.mpr ⟨t, behind, inside⟩, foreign⟩

/-- Only polynomials with finite coefficients have a text that can be read. -/
theorem isFinite_of_parse_format {q : Polynomial Float} (h : parse p.format = .ok q) :
    ∀ t ∈ p.terms, t.2.isFinite = true := by
  intro t member
  by_contra infinite
  obtain ⟨letter, inside, foreign, visible⟩ :=
    hasLetter_formatChars member (Bool.eq_false_iff.mpr infinite)
  obtain ⟨placed, found, -⟩ := parse_eq_ok_iff.mp h
  rw [format, String.toList_ofList] at found
  rw [Token.isTermChar_of_read found inside visible] at foreign
  cases foreign

theorem pruned_pruned : p.pruned.pruned = p.pruned := by
  apply eq_of_terms
  change (p.significantTerms).filter _ = p.significantTerms
  rw [significantTerms, List.filter_filter]
  simp

/-- Finite coefficients come back from the text, but for those that do not count. -/
theorem exists_parse_format (finite : ∀ t ∈ p.terms, t.2.isFinite = true) :
    ∃ q, parse p.format = .ok q ∧ q.pruned = p.pruned ∧ (q.pruned == p.pruned) = true := by
  have itself : (p.pruned == p.pruned) = true :=
    beq_self_of_written fun _ => isWritten_of_mem_significantTerms finite
  by_cases none : p.significantTerms = []
  · obtain ⟨q, read, vanishes⟩ := parse_zero_text
    have same : q.pruned = p.pruned := eq_of_terms (vanishes.trans none.symm)
    have zero : p.format = "0" := by
      simp [format, formatChars, none]
    rw [zero]
    exact ⟨q, read, same, same ▸ itself⟩
  · obtain ⟨placed, read, tokens⟩ := exists_read_formatChars none finite
    refine ⟨p.pruned, parse_eq_ok_iff.mpr ⟨placed, ?_, ?_⟩, pruned_pruned, ?_⟩
    · rw [format, String.toList_ofList, read]
    · rw [ofTokens_eq tokens, ofTerms_significantTerms finite]
    · rw [pruned_pruned]
      exact itself

/-- Each coefficient of a parsed polynomial is the sum of the numbers read for its degree. All of
them are finite if and only if no such sum leaves the range of the numbers on its way, and if and
only if the text of the polynomial is read again as the terms that count. -/
theorem parse_finite_iff {text : String} (h : parse text = .ok p) :
    ∃ placed, Token.read text.toList = .ok placed ∧
      (∀ t ∈ placed, t.token.coefficient.isFinite = true) ∧
      (∀ d, p.coefficient d = degreeSum placed d) ∧
      ((∀ t ∈ p.terms, t.2.isFinite = true) ↔
        ∀ front, front <+: placed → ∀ d, (degreeSum front d).isFinite = true) ∧
      ((∀ t ∈ p.terms, t.2.isFinite = true) ↔
        ∃ q, parse p.format = .ok q ∧ q.pruned = p.pruned ∧ (q.pruned == p.pruned) = true) := by
  obtain ⟨placed, read, rfl⟩ := parse_eq_ok_iff.mp h
  refine ⟨placed, read, Token.isFinite_of_read read, coefficient_ofTokens placed, ?_,
    exists_parse_format, ?_⟩
  · rw [isFinite_terms_iff]
    constructor
    · intro finite front initial d
      apply isFinite_degreeSum_of_prefix initial
      rw [← coefficient_ofTokens]
      exact finite d
    · intro finite d
      rw [coefficient_ofTokens]
      exact finite placed List.prefix_rfl d
  · rintro ⟨q, again, -⟩
    exact isFinite_of_parse_format again

theorem exists_of_map_eq_ok {ε β γ : Type} {f : β → γ} {result : Except ε β} {c : γ}
    (h : result.map f = .ok c) : ∃ b, result = .ok b ∧ f b = c := by
  cases result with
  | error e => cases h
  | ok b => exact ⟨b, rfl, Except.ok.inj h⟩

/-- Two terms of one degree whose sum is a number. -/
theorem parse_finite_iff_double :
    ∃ p q : Polynomial Float, parse "x + x - 2" = .ok p ∧ p.terms = [(0, -2.0), (1, 2.0)] ∧
      parse p.format = .ok q ∧ q.pruned = p.pruned := by
  have run : (parse "x + x - 2" : Except (AreaError Float) (Polynomial Float)).map (·.terms) =
      .ok [(0, -2.0), (1, 2.0)] := by
    decide +kernel
  obtain ⟨p, read, terms⟩ := exists_of_map_eq_ok run
  have finite : ∀ t ∈ p.terms, t.2.isFinite = true := by
    rw [terms]
    decide +kernel
  obtain ⟨-, -, -, -, -, roundTrip⟩ := parse_finite_iff read
  obtain ⟨q, again, same, -⟩ := roundTrip.mp finite
  exact ⟨p, q, read, terms, again, same⟩

/-- Two constants of 308 nines each are read, but their sum is infinite, and the text that is
written for it cannot be read. -/
theorem parse_overflow :
    ∃ p : Polynomial Float,
      parse (String.ofList (List.replicate 308 '9' ++ '+' :: List.replicate 308 '9')) = .ok p ∧
        p.terms = [(0, Float.inf)] ∧ ∀ q : Polynomial Float, parse p.format ≠ .ok q := by
  have run : (Token.read (List.replicate 308 '9' ++ '+' :: List.replicate 308 '9') :
      Except TermError (List (PlacedToken Float))).map (fun placed => (ofTokens placed).terms) =
        .ok [(0, Float.inf)] := by
    decide +kernel
  obtain ⟨placed, read, terms⟩ := exists_of_map_eq_ok run
  refine ⟨ofTokens placed, parse_eq_ok_iff.mpr ⟨placed, ?_, rfl⟩, terms, fun q again => ?_⟩
  · rw [String.toList_ofList, read]
  · have finite := isFinite_of_parse_format again (0, Float.inf) (by simp [terms])
    cases finite

end Polynomial

end CurveArea
