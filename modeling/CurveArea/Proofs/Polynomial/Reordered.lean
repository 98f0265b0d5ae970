import CurveArea.Proofs.Binary64.Summation
import CurveArea.Proofs.Polynomial.Accumulation
import CurveArea.Proofs.Polynomial.Closeness
import CurveArea.Proofs.Term.Joining

/-!
# Terms in another order

A text of terms that all have their sign may be put together in any order: it is read in every order
or in none, and the same degrees are stored. But the coefficients of one degree are added up in the
order of the text, and rounded additions do not associate, so the sums of two orders may differ.
They do not where no degree is written more than twice, and they are within the tolerance where the
terms of a degree are not too many and not too large.
-/

namespace CurveArea

namespace Token

open Lexeme (EndsTerm)

variable {α : Type} [Scalar α]

theorem endsTerm_append {front back : List Char} (first : EndsTerm front)
    (second : EndsTerm back) : EndsTerm (front ++ back) := by
  cases front with
  | nil => exact second
  | cons c rest => exact first

theorem endsTerm_flatten {texts : List (List Char)}
    (signed : ∀ t ∈ texts, EndsTerm (Text.compact t)) :
    EndsTerm (Text.compact texts.flatten) := by
  induction texts with
  | nil => exact Lexeme.endsTerm_nil
  | cons t rest ih =>
    obtain ⟨first, others⟩ := List.forall_mem_cons.mp signed
    rw [List.flatten_cons, Text.compact_append]
    exact endsTerm_append first (ih others)

/-- The tokens of a text; a text that is refused has none. -/
def tokensOf (text : List Char) : List (Token α) :=
  match read text with
  | .ok placed => placed.map (·.token)
  | .error _ => []

theorem tokensOf_of_read {text : List Char} {placed : List (PlacedToken α)}
    (h : read text = .ok placed) : tokensOf text = placed.map (·.token) := by
  rw [tokensOf, h]

variable (α) in
/-- Whether a text is read. -/
def IsRead (text : List Char) : Prop :=
  ∃ placed : List (PlacedToken α), read text = .ok placed

theorem isRead_append_iff {s t : List Char} (ends : EndsTerm (Text.compact t)) :
    IsRead α (s ++ t) ↔ IsRead α s ∧ IsRead α t := by
  constructor
  · rintro ⟨placed, found⟩
    cases first : (read s : Except TermError (List (PlacedToken α))) with
    | error e =>
      obtain ⟨e', failed, -⟩ := read_append_of_error ends first
      rw [failed] at found
      cases found
    | ok front =>
      rw [read_append_of_ok ends first] at found
      cases second : (read t : Except TermError (List (PlacedToken α))) with
      | error e =>
        rw [second] at found
        cases found
      | ok back => exact ⟨⟨front, first⟩, back, second⟩
  · rintro ⟨⟨front, first⟩, back, second⟩
    rw [IsRead, read_append_of_ok ends first, second]
    exact ⟨_, rfl⟩

theorem tokensOf_append {s t : List Char} (ends : EndsTerm (Text.compact t))
    (first : IsRead α s) (second : IsRead α t) :
    (tokensOf (s ++ t) : List (Token α)) = tokensOf s ++ tokensOf t := by
  obtain ⟨front, first⟩ := first
  obtain ⟨back, second⟩ := second
  have both : read (s ++ t) =
      .ok (front ++ back.map (·.moved (byteLength (Text.compact s)))) := by
    rw [read_append_of_ok ends first, second]
    rfl
  rw [tokensOf_of_read both, tokensOf_of_read first, tokensOf_of_read second, List.map_append,
    List.map_map]
  rfl

/-- Texts with signs are read together if and only if each of them is read. -/
theorem isRead_flatten_iff {texts : List (List Char)}
    (signed : ∀ t ∈ texts, EndsTerm (Text.compact t)) :
    IsRead α texts.flatten ↔ ∀ t ∈ texts, IsRead α t := by
  induction texts with
  | nil => exact iff_of_true ⟨[], readFrom_nil 0 true⟩ nofun
  | cons t rest ih =>
    obtain ⟨-, others⟩ := List.forall_mem_cons.mp signed
    rw [List.flatten_cons, isRead_append_iff (endsTerm_flatten others), ih others,
      List.forall_mem_cons]

theorem tokensOf_flatten {texts : List (List Char)}
    (signed : ∀ t ∈ texts, EndsTerm (Text.compact t)) (each : ∀ t ∈ texts, IsRead α t) :
    (tokensOf texts.flatten : List (Token α)) = texts.flatMap tokensOf := by
  induction texts with
  | nil =>
    have found : (read [] : Except TermError (List (PlacedToken α))) = .ok [] := readFrom_nil 0 true
    exact tokensOf_of_read found
  | cons t rest ih =>
    obtain ⟨-, others⟩ := List.forall_mem_cons.mp signed
    obtain ⟨first, later⟩ := List.forall_mem_cons.mp each
    have together := (isRead_flatten_iff others).mpr later
    rw [List.flatten_cons, tokensOf_append (endsTerm_flatten others) first together,
      ih others later, List.flatMap_cons]

end Token

namespace Polynomial

open Binary64 (roundedSum absSum)
open Lexeme (EndsTerm)

variable {p q : Polynomial Float} {text : String} {texts permuted : List String}

/-- The degree and the coefficient of each term of a text, in the order of the text. -/
def writtenTerms (text : String) : List (Degree × Float) :=
  (Token.tokensOf text.toList).map fun token => (token.degree, token.coefficient)

theorem parse_eq_ok_iff_writtenTerms :
    parse text = .ok p ↔ Token.IsRead Float text.toList ∧ ofTerms (writtenTerms text) = p := by
  have terms : ∀ placed, Token.read text.toList = .ok placed →
      ofTerms (writtenTerms text) = ofTokens placed := by
    intro placed found
    rw [writtenTerms, Token.tokensOf_of_read found, List.map_map]
    rfl
  rw [parse_eq_ok_iff]
  constructor
  · rintro ⟨placed, found, same⟩
    exact ⟨⟨placed, found⟩, (terms placed found).trans same⟩
  · rintro ⟨⟨placed, found⟩, same⟩
    exact ⟨placed, found, (terms placed found).symm.trans same⟩

theorem isFinite_of_mem_writtenTerms {t : Degree × Float} (member : t ∈ writtenTerms text) :
    t.2.isFinite = true := by
  obtain ⟨token, inside, rfl⟩ := List.mem_map.mp member
  rw [Token.tokensOf] at inside
  cases found : (Token.read text.toList : Except TermError (List (PlacedToken Float))) with
  | error e =>
    rw [found] at inside
    cases inside
  | ok placed =>
    rw [found] at inside
    obtain ⟨s, stands, rfl⟩ := List.mem_map.mp inside
    exact Token.isFinite_of_read found s stands

/-- A text of terms that have their signs is read in every order if it is read in one, and the
terms are the same but for their order. -/
theorem isRead_join_of_perm (signed : ∀ t ∈ texts, EndsTerm (Text.compact t.toList))
    (order : texts.Perm permuted) (h : Token.IsRead Float (String.join texts).toList) :
    Token.IsRead Float (String.join permuted).toList ∧
      (writtenTerms (String.join texts)).Perm (writtenTerms (String.join permuted)) := by
  have joined : ∀ texts : List String,
      (String.join texts).toList = (texts.map String.toList).flatten :=
    fun texts => String.toList_join.trans List.flatMap_def
  have signedLists : ∀ t ∈ texts.map String.toList, EndsTerm (Text.compact t) :=
    List.forall_mem_map.mpr signed
  have orderLists := order.map String.toList
  have signedLists' : ∀ t ∈ permuted.map String.toList, EndsTerm (Text.compact t) :=
    fun t member => signedLists t (orderLists.mem_iff.mpr member)
  rw [joined, Token.isRead_flatten_iff signedLists] at h
  have each : ∀ t ∈ permuted.map String.toList, Token.IsRead Float t :=
    fun t member => h t (orderLists.mem_iff.mpr member)
  constructor
  · rw [joined, Token.isRead_flatten_iff signedLists']
    exact each
  · rw [writtenTerms, writtenTerms, joined, joined, Token.tokensOf_flatten signedLists h,
      Token.tokensOf_flatten signedLists' each]
    exact (orderLists.flatMap_right _).map _

theorem coefficientsAt_perm {terms terms' : List (Degree × Float)} (order : terms.Perm terms')
    (d : Degree) : (coefficientsAt d terms).Perm (coefficientsAt d terms') :=
  (order.filter _).map _

/-- What two orders of the same terms have in common. -/
structure Reordered (terms terms' : List (Degree × Float)) (p q : Polynomial Float) : Prop where
  degrees_eq : p.degrees = q.degrees
  perm : terms.Perm terms'
  /-- Each coefficient is the sum of those of its degree, in the order of the terms. -/
  coefficient_eq : ∀ d, p.coefficient d = roundedSum (coefficientsAt d terms) ∧
    q.coefficient d = roundedSum (coefficientsAt d terms')
  /-- The polynomials are close where the two sums of every degree are. -/
  within_iff : p.within q 1e-10 = true ↔
    ∀ d, (roundedSum (coefficientsAt d terms) - roundedSum (coefficientsAt d terms')).abs ≤ 1e-10
  /-- They are the same if no degree has more than two terms. -/
  eq_of_two : (∀ d, (coefficientsAt d terms).length ≤ 2) → p = q
  /-- They are close if at each degree the number of terms times the sum of their magnitudes is at
  most about 450 000. -/
  within_of_few : (∀ d, (coefficientsAt d terms).length * absSum (coefficientsAt d terms) ≤
    2 ^ 52 / 10 ^ 10) → p.within q 1e-10 = true

theorem reordered_ofTerms {terms terms' : List (Degree × Float)} (order : terms.Perm terms')
    (finite : ∀ t ∈ terms, t.2.isFinite = true) :
    Reordered terms terms' (ofTerms terms) (ofTerms terms') := by
  have coefficients : ∀ (terms : List (Degree × Float)) d,
      (ofTerms terms).coefficient d = roundedSum (coefficientsAt d terms) :=
    coefficient_ofTerms_eq_foldl
  have stored : ∀ d, d ∈ (ofTerms terms).degrees ↔ d ∈ (ofTerms terms').degrees := by
    intro d
    rw [mem_degrees_ofTerms, mem_degrees_ofTerms]
    simp only [order.mem_iff]
  have nonneg : (0.0 : Float) ≤ 1e-10 := by decide +kernel
  have close : (ofTerms terms).within (ofTerms terms') 1e-10 = true ↔ ∀ d,
      (roundedSum (coefficientsAt d terms) - roundedSum (coefficientsAt d terms')).abs ≤ 1e-10 := by
    rw [Polynomial.within_iff nonneg]
    simp only [coefficients]
  refine ⟨?_, order, fun d => ⟨coefficients terms d, coefficients terms' d⟩, close, ?_, ?_⟩
  · exact List.Pairwise.eq_of_mem_iff (sorted_degrees _) (sorted_degrees _) fun d => stored d
  · intro twice
    refine eq_of_coefficient_eq stored fun d => ?_
    rw [coefficients, coefficients]
    exact Binary64.roundedSum_eq_of_length_le_two (coefficientsAt_perm order d) (twice d)
  · intro few
    refine close.mpr fun d => ?_
    refine Binary64.abs_sub_roundedSum_le_tolerance (coefficientsAt_perm order d) ?_ (few d)
    intro c member
    exact finite (d, c) (mem_coefficientsAt.mp member)

/-- If a text of terms that all have their signs is read, it is read in every order of the terms.
The same degrees are stored, and the coefficients are the sums of the same numbers in another
order. -/
theorem parse_reordered {texts permuted : List String} {p : Polynomial Float}
    (signed : ∀ t ∈ texts, ∃ sign : Sign, (Text.compact t.toList).head? = some sign.char)
    (order : texts.Perm permuted) (h : parse (String.join texts) = .ok p) :
    ∃ q, parse (String.join permuted) = .ok q ∧
      Reordered (writtenTerms (String.join texts)) (writtenTerms (String.join permuted)) p q := by
  have ends : ∀ t ∈ texts, EndsTerm (Text.compact t.toList) := by
    intro t member
    obtain ⟨sign, head⟩ := signed t member
    exact Token.endsTerm_of_sign head
  obtain ⟨found, rfl⟩ := parse_eq_ok_iff_writtenTerms.mp h
  obtain ⟨found', terms⟩ := isRead_join_of_perm ends order found
  refine ⟨_, parse_eq_ok_iff_writtenTerms.mpr ⟨found', rfl⟩, reordered_ofTerms terms ?_⟩
  intro t member
  exact isFinite_of_mem_writtenTerms member

/-- Three terms of one degree in two orders: few and small, so their sums are close. -/
theorem parse_reordered_small :
    ∃ p q : Polynomial Float, parse "+1x + 2x - 3x" = .ok p ∧ parse " - 3x+1x + 2x" = .ok q ∧
      p.degrees = [1] ∧ q.degrees = [1] ∧ p.within q 1e-10 = true := by
  let texts := ["+1x", " + 2x", " - 3x"]
  let permuted := [" - 3x", "+1x", " + 2x"]
  have signed : ∀ t ∈ texts, ∃ sign : Sign, (Text.compact t.toList).head? = some sign.char := by
    intro t member
    obtain rfl | rfl | rfl : t = "+1x" ∨ t = " + 2x" ∨ t = " - 3x" := by simpa [texts] using member
    · exact ⟨.plus, by decide⟩
    · exact ⟨.plus, by decide⟩
    · exact ⟨.minus, by decide⟩
  have order : texts.Perm permuted := by decide
  have run : (parse (String.join texts) : Except (AreaError Float) (Polynomial Float)).map
      (·.degrees) = .ok [1] := by
    decide +kernel
  have terms : writtenTerms (String.join texts) = [(1, 1.0), (1, 2.0), (1, -3.0)] := by
    decide +kernel
  obtain ⟨p, first, degrees⟩ := exists_of_map_eq_ok run
  obtain ⟨q, second, same⟩ := parse_reordered signed order first
  have few : ∀ d, (coefficientsAt d (writtenTerms (String.join texts))).length *
      absSum (coefficientsAt d (writtenTerms (String.join texts))) ≤ 2 ^ 52 / 10 ^ 10 := by
    intro d
    rw [terms]
    by_cases linear : d = 1
    · rw [linear]
      decide +kernel
    · have none : coefficientsAt d [(1, 1.0), (1, 2.0), (1, (-3.0 : Float))] = [] := by
        simp [coefficientsAt, Ne.symm linear]
      rw [none]
      norm_num
  exact ⟨p, q, first, second, degrees, same.degrees_eq.symm.trans degrees, same.within_of_few few⟩

/-- A one in front of two large numbers that cancel is lost, and behind them it is not. -/
theorem parse_reordered_apart :
    ∃ texts permuted : List String, ∃ p q : Polynomial Float,
      texts = ["+1", "+10000000000000000", "-10000000000000000"] ∧
      permuted = ["+10000000000000000", "-10000000000000000", "+1"] ∧
      texts.Perm permuted ∧ parse (String.join texts) = .ok p ∧
      parse (String.join permuted) = .ok q ∧ p.terms = [(0, 0.0)] ∧ q.terms = [(0, 1.0)] ∧
      p.within q 1e-10 = false := by
  let texts := ["+1", "+10000000000000000", "-10000000000000000"]
  let permuted := ["+10000000000000000", "-10000000000000000", "+1"]
  have lost : (parse (String.join texts) : Except (AreaError Float) (Polynomial Float)).map
      (·.terms) = .ok [(0, 0.0)] := by
    decide +kernel
  have kept : (parse (String.join permuted) : Except (AreaError Float) (Polynomial Float)).map
      (·.terms) = .ok [(0, 1.0)] := by
    decide +kernel
  obtain ⟨p, first, termsP⟩ := exists_of_map_eq_ok lost
  obtain ⟨q, second, termsQ⟩ := exists_of_map_eq_ok kept
  have sameP : p = ⟨[(0, 0.0)], by decide⟩ := eq_of_terms termsP
  have sameQ : q = ⟨[(0, 1.0)], by decide⟩ := eq_of_terms termsQ
  refine ⟨texts, permuted, p, q, rfl, rfl, by decide, first, second, termsP, termsQ, ?_⟩
  rw [sameP, sameQ]
  decide +kernel

end Polynomial

end CurveArea
