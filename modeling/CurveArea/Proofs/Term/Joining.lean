import CurveArea.Proofs.Term.Reading

/-!
# Texts joined at a sign

Where a text starts with a sign, it is read on its own, whatever stands before it: scanning cannot
reach across the sign, and a term with a sign may stand anywhere. So a joined text is read if and
only if both of its parts are, what is read are the tokens of both, and a fault in either part stays
where it is. Positions count on from the length of the first part.
-/

namespace CurveArea

namespace Lexeme

/-- A term that is scanned where a text starts with a sign has that sign. -/
theorem sign_ne_none_of_scan {text rest : List Char} {lexeme : Lexeme} (ends : EndsTerm text)
    (h : scan text = some (lexeme, rest)) : lexeme.sign ≠ none := by
  rw [sign_of_scan h]
  cases text with
  | nil => simp [scan_nil] at h
  | cons c more =>
    obtain ⟨sign, isSign⟩ := Option.isSome_iff_exists.mp (ends c rfl)
    simp [scanSign, isSign]

end Lexeme

/-- A token that stands further on in a text. -/
def PlacedToken.moved {α : Type} (offset : Nat) (placed : PlacedToken α) : PlacedToken α :=
  { placed with position := offset + placed.position }

/-- A fault that stands further on in a text. -/
def TermError.moved (offset : Nat) (e : TermError) : TermError :=
  { e with position := offset + e.position }

theorem byteLength_append (front back : List Char) :
    byteLength (front ++ back) = byteLength front + byteLength back := by
  induction front with
  | nil => simp [byteLength]
  | cons c rest ih =>
    simp only [byteLength, List.cons_append, List.foldr_cons] at ih ⊢
    omega

namespace Token

open Lexeme

variable {α : Type} [Scalar α]

/-- One round of reading. -/
theorem readFrom_of_ne_nil {position : Nat} {leading : Bool} {text : List Char}
    (nonempty : text ≠ []) :
    (readFrom position leading text : Except TermError (List (PlacedToken α))) =
      match scan text with
      | none => .error ⟨text, position, .ofUnreadable text⟩
      | some (term, rest) =>
        if !leading && term.sign.isNone then .error ⟨term.text, position, .missingSign⟩
        else
          match (term.token : Except TermFault (Token α)) with
          | .error fault => .error ⟨term.text, position, fault⟩
          | .ok token =>
            (readFrom (position + byteLength term.text) false rest).map
              (⟨token, position, term.text⟩ :: ·) := by
  rw [readFrom, if_neg nonempty]
  split
  · next unreadable => rw [unreadable]
  · next term rest scanned =>
    simp only [scanned]
    rfl

/-- Positions count from where the text starts. -/
theorem readFrom_add (offset position : Nat) (leading : Bool) (text : List Char) :
    (readFrom (offset + position) leading text : Except TermError (List (PlacedToken α))) =
      ((readFrom position leading text).map (·.map (·.moved offset))).mapError
        (·.moved offset) := by
  fun_induction readFrom (α := α) position leading text with
  | case1 position leading => rw [readFrom_nil]; rfl
  | case2 position leading text nonempty unreadable =>
    rw [readFrom_of_ne_nil nonempty, unreadable]
    rfl
  | case3 position leading text nonempty term rest scanned unsigned =>
    rw [readFrom_of_ne_nil nonempty, scanned]
    simp only [unsigned, if_true]
    rfl
  | case4 position leading text nonempty term rest scanned signed fault value =>
    rw [readFrom_of_ne_nil nonempty, scanned]
    simp only [if_neg signed, value]
    rfl
  | case5 position leading text nonempty term rest scanned signed token value ih =>
    rw [readFrom_of_ne_nil nonempty, scanned]
    simp only [if_neg signed, value]
    rw [Nat.add_assoc, ih]
    cases (readFrom (position + byteLength term.text) false rest :
      Except TermError (List (PlacedToken α))) <;> rfl

/-- A text that starts with a sign may stand in front or behind another term. -/
theorem readFrom_leading (leading : Bool) {position : Nat} {text : List Char}
    (ends : EndsTerm text) :
    (readFrom position leading text : Except TermError (List (PlacedToken α))) =
      readFrom position false text := by
  by_cases nonempty : text = []
  · rw [nonempty, readFrom_nil, readFrom_nil]
  · rw [readFrom_of_ne_nil nonempty, readFrom_of_ne_nil nonempty]
    cases scanned : scan text with
    | none => rfl
    | some found =>
      have signed : found.1.sign.isNone = false := by
        have hasSign := sign_ne_none_of_scan ends scanned
        simpa [Option.isSome_iff_ne_none] using hasSign
      simp [signed]

/-- Behind a text that is read, a text that starts with a sign is read on its own. -/
theorem readFrom_append_of_ok {position : Nat} {leading : Bool} {text more : List Char}
    {front : List (PlacedToken α)} (ends : EndsTerm more)
    (read : readFrom position leading text = .ok front) :
    readFrom position leading (text ++ more) =
      (readFrom (position + byteLength text) false more).map (front ++ ·) := by
  fun_induction readFrom (α := α) position leading text generalizing front with
  | case1 position leading =>
    obtain rfl := Except.ok.inj read
    rw [List.nil_append, readFrom_leading leading ends]
    change _ = (readFrom position false more).map id
    exact (id_map _).symm
  | case2 => cases read
  | case3 => cases read
  | case4 => cases read
  | case5 position leading text nonempty term rest scanned signed token value ih =>
    cases found : (readFrom (position + byteLength term.text) false rest :
        Except TermError (List (PlacedToken α))) with
    | error e => simp [found, bind, Except.bind] at read
    | ok later =>
      simp only [found, bind, Except.bind, pure, Except.pure] at read
      obtain rfl := Except.ok.inj read
      have length : byteLength text = byteLength term.text + byteLength rest := by
        rw [← byteLength_append, text_append_of_scan scanned]
      rw [readFrom_of_ne_nil (List.append_ne_nil_of_left_ne_nil nonempty more),
        scan_append nonempty ends, scanned]
      simp only [Option.map_some, if_neg signed, value]
      rw [ih found, length, Nat.add_assoc]
      cases (readFrom (position + (byteLength term.text + byteLength rest)) false more :
        Except TermError (List (PlacedToken α))) <;> rfl

/-- A text that is not read fails where it fails alone, whatever stands behind it from a sign on. -/
theorem readFrom_append_of_error {position : Nat} {leading : Bool} {text more : List Char}
    {e : TermError} (ends : EndsTerm more)
    (failed : (readFrom position leading text : Except TermError (List (PlacedToken α))) =
      .error e) :
    ∃ e', (readFrom position leading (text ++ more) : Except TermError (List (PlacedToken α))) =
      .error e' ∧ e'.position = e.position := by
  fun_induction readFrom (α := α) position leading text generalizing e with
  | case1 => cases failed
  | case2 position leading text nonempty unreadable =>
    obtain rfl := Except.error.inj failed
    rw [readFrom_of_ne_nil (List.append_ne_nil_of_left_ne_nil nonempty more),
      scan_append nonempty ends, unreadable]
    exact ⟨_, rfl, rfl⟩
  | case3 position leading text nonempty term rest scanned unsigned =>
    obtain rfl := Except.error.inj failed
    rw [readFrom_of_ne_nil (List.append_ne_nil_of_left_ne_nil nonempty more),
      scan_append nonempty ends, scanned]
    simp only [Option.map_some, unsigned, if_true]
    exact ⟨_, rfl, rfl⟩
  | case4 position leading text nonempty term rest scanned signed fault value =>
    obtain rfl := Except.error.inj failed
    rw [readFrom_of_ne_nil (List.append_ne_nil_of_left_ne_nil nonempty more),
      scan_append nonempty ends, scanned]
    simp only [Option.map_some, if_neg signed, value]
    exact ⟨_, rfl, rfl⟩
  | case5 position leading text nonempty term rest scanned signed token value ih =>
    cases found : (readFrom (position + byteLength term.text) false rest :
        Except TermError (List (PlacedToken α))) with
    | ok later => simp [found, bind, Except.bind, pure, Except.pure] at failed
    | error e' =>
      simp only [found, bind, Except.bind] at failed
      obtain rfl := Except.error.inj failed
      obtain ⟨e'', failed', same⟩ := ih found
      rw [readFrom_of_ne_nil (List.append_ne_nil_of_left_ne_nil nonempty more),
        scan_append nonempty ends, scanned]
      simp only [Option.map_some, if_neg signed, value, failed']
      exact ⟨_, rfl, same⟩

theorem endsTerm_of_sign {text : List Char} {sign : Sign} (signed : text.head? = some sign.char) :
    EndsTerm text := by
  intro c member
  rw [signed] at member
  obtain rfl := Option.some.inj member
  exact isSome_ofChar?_char sign

section Append

variable {s t : List Char} (ends : EndsTerm (Text.compact t))

include ends

/-- Behind a text that is read, what is read of the second text counts on from the first. -/
theorem read_append_of_ok {front : List (PlacedToken α)} (found : read s = .ok front) :
    read (s ++ t) = (((read t).map (·.map (·.moved (byteLength (Text.compact s))))).mapError
      (·.moved (byteLength (Text.compact s)))).map (front ++ ·) := by
  rw [read, Text.compact_append, readFrom_append_of_ok ends found, Nat.zero_add, read,
    ← readFrom_add, Nat.add_zero, readFrom_leading true ends]

theorem read_append_of_error {e : TermError}
    (failed : (read s : Except TermError (List (PlacedToken α))) = .error e) :
    ∃ e', (read (s ++ t) : Except TermError (List (PlacedToken α))) = .error e' ∧
      e'.position = e.position := by
  rw [read, Text.compact_append]
  exact readFrom_append_of_error ends failed

end Append

/-- What is read where a text is joined to one that starts with a sign, in all cases. -/
theorem read_append_of_sign {s t : List Char} {sign : Sign}
    (signed : (Text.compact t).head? = some sign.char) :
    ((∃ placed, (read (s ++ t) : Except TermError (List (PlacedToken α))) = .ok placed) ↔
      (∃ front, (read s : Except TermError (List (PlacedToken α))) = .ok front) ∧
        ∃ back, (read t : Except TermError (List (PlacedToken α))) = .ok back) ∧
    (∀ front back : List (PlacedToken α), read s = .ok front → read t = .ok back →
      read (s ++ t) =
        .ok (front ++ back.map (·.moved (byteLength (Text.compact s))))) ∧
    (∀ e, (read s : Except TermError (List (PlacedToken α))) = .error e →
      ∃ e', (read (s ++ t) : Except TermError (List (PlacedToken α))) = .error e' ∧
        e'.position = e.position) ∧
    ∀ (front : List (PlacedToken α)) (e : TermError), read s = .ok front →
      (read t : Except TermError (List (PlacedToken α))) = .error e →
      (read (s ++ t) : Except TermError (List (PlacedToken α))) =
        .error (e.moved (byteLength (Text.compact s))) := by
  have ends := endsTerm_of_sign signed
  have bothRead : ∀ front back : List (PlacedToken α), read s = .ok front → read t = .ok back →
      read (s ++ t) = .ok (front ++ back.map (·.moved (byteLength (Text.compact s)))) := by
    intro front back foundFront foundBack
    rw [read_append_of_ok ends foundFront, foundBack]
    rfl
  have frontFails : ∀ e, (read s : Except TermError (List (PlacedToken α))) = .error e →
      ∃ e', (read (s ++ t) : Except TermError (List (PlacedToken α))) = .error e' ∧
        e'.position = e.position := fun _ failed => read_append_of_error ends failed
  have backFails : ∀ (front : List (PlacedToken α)) (e : TermError), read s = .ok front →
      (read t : Except TermError (List (PlacedToken α))) = .error e →
      (read (s ++ t) : Except TermError (List (PlacedToken α))) =
        .error (e.moved (byteLength (Text.compact s))) := by
    intro front e foundFront failed
    rw [read_append_of_ok ends foundFront, failed]
    rfl
  refine ⟨⟨?_, ?_⟩, bothRead, frontFails, backFails⟩
  · rintro ⟨placed, found⟩
    cases foundFront : (read s : Except TermError (List (PlacedToken α))) with
    | error e =>
      obtain ⟨e', failed, -⟩ := frontFails e foundFront
      rw [failed] at found
      cases found
    | ok front =>
      cases foundBack : (read t : Except TermError (List (PlacedToken α))) with
      | error e =>
        rw [backFails front e foundFront foundBack] at found
        cases found
      | ok back => exact ⟨⟨front, rfl⟩, back, rfl⟩
  · rintro ⟨⟨front, foundFront⟩, back, foundBack⟩
    exact ⟨_, bothRead front back foundFront foundBack⟩

/-- A term that cannot follow its neighbour is found where it stands in the joined text. -/
theorem read_append_of_sign_shifted :
    (Text.compact " - x^3.5".toList).head? = some Sign.minus.char ∧
      (read ("2 x".toList ++ " - x^3.5".toList) :
        Except TermError (List (PlacedToken Float))) = .error ⟨['.', '5'], 6, .missingSign⟩ := by
  have signed : (Text.compact " - x^3.5".toList).head? = some Sign.minus.char := by decide
  have front : read "2 x".toList = .ok [⟨Token.power (2.0 : Float) 1, 0, ['2', 'x']⟩] := by
    decide +kernel
  have back : (read " - x^3.5".toList : Except TermError (List (PlacedToken Float))) =
      .error ⟨['.', '5'], 4, .missingSign⟩ := by
    decide +kernel
  exact ⟨signed, (read_append_of_sign signed).2.2.2 _ _ front back⟩

end Token
end CurveArea
