import CurveArea.Proofs.Term.Joining
import Mathlib.Data.String.Basic
import Mathlib.Logic.Relation

/-!
# Reading round by round

Reading as a loop: a state holds the tokens so far, what is left of the text and the byte offset of
it, and a round turns the term at the start of what is left into a token. Each round takes at least
one byte, so the loop ends within as many rounds as the text has bytes, and what comes of it is what
`Token.read` gives. What a round keeps, and so every state on the way has, is that the text up to
the offset is cut into the terms whose values are the tokens. So no byte of a text that is read is
lost, and no token depends on the text around it.
-/

namespace CurveArea

open Lexeme (scan scan_nil Cut Denotes IsTerm text_append_of_scan text_ne_nil_of_scan isTerm_of_scan
  token_eq_ok_iff)

/-! ## Bytes -/

theorem byteLength_eq_utf8ByteSize (text : List Char) :
    byteLength text = (String.ofList text).utf8ByteSize := by
  rw [String.utf8ByteSize_ofList]
  induction text with
  | nil => rfl
  | cons c rest ih =>
    rw [String.utf8Len, ← ih, Nat.add_comm]
    rfl

theorem byteLength_pos {text : List Char} (nonempty : text ≠ []) : 0 < byteLength text := by
  obtain ⟨c, rest, rfl⟩ := List.exists_cons_of_ne_nil nonempty
  exact Nat.add_pos_left c.utf8Size_pos _

/-- Where one part of a text ends and the next one starts there is a boundary of characters. -/
theorem isValid_byteLength (front back : List Char) :
    String.Pos.Raw.IsValid (String.ofList (front ++ back)) ⟨byteLength front⟩ := by
  rw [String.Pos.Raw.isValid_iff_exists_append]
  refine ⟨String.ofList front, String.ofList back, String.ofList_append, ?_⟩
  rw [byteLength_eq_utf8ByteSize]
  rfl

/-! ## The loop -/

/-- Where a reading stands between two rounds. -/
structure Reading (α : Type) where
  /-- What has been read. -/
  tokens : List (PlacedToken α)
  /-- The byte offset of what is left. -/
  position : Nat
  rest : List Char

namespace Reading

variable {α : Type} [Scalar α]

/-- Before the first round. -/
def start (text : List Char) : Reading α := ⟨[], 0, text⟩

/-- One round. -/
def round (r : Reading α) : Except TermError (Reading α) :=
  match scan r.rest with
  | none => .error ⟨r.rest, r.position, .ofUnreadable r.rest⟩
  | some (term, rest) =>
    if !r.tokens.isEmpty && term.sign.isNone then .error ⟨term.text, r.position, .missingSign⟩
    else
      match (term.token : Except TermFault (Token α)) with
      | .error fault => .error ⟨term.text, r.position, fault⟩
      | .ok token =>
        .ok ⟨r.tokens ++ [⟨token, r.position, term.text⟩], r.position + byteLength term.text, rest⟩

/-- What comes of the loop within `n` rounds, if it ends within them. -/
def run : (n : Nat) → Reading α → Option (Except TermError (List (PlacedToken α)))
  | 0, r => if r.rest = [] then some (.ok r.tokens) else none
  | n + 1, r =>
    if r.rest = [] then some (.ok r.tokens)
    else
      match r.round with
      | .error e => some (.error e)
      | .ok next => next.run n

/-- Any number of rounds lead from one state to another. -/
def Leads : Reading α → Reading α → Prop := Relation.ReflTransGen fun r s => r.round = .ok s

variable {r s next : Reading α} {e : TermError} {placed : List (PlacedToken α)}

/-- What a round that succeeds does. -/
theorem round_eq_ok (h : r.round = .ok next) :
    ∃ term rest token, scan r.rest = some (term, rest) ∧ (r.tokens = [] ∨ term.sign ≠ none) ∧
      (term.token : Except TermFault (Token α)) = .ok token ∧
      next = ⟨r.tokens ++ [⟨token, r.position, term.text⟩], r.position + byteLength term.text,
        rest⟩ := by
  rw [round] at h
  split at h
  · cases h
  · next term rest scanned =>
    split at h
    · cases h
    · next signed =>
      split at h
      · cases h
      · next token value =>
        refine ⟨term, rest, token, scanned, ?_, value, (Except.ok.inj h).symm⟩
        simpa [Classical.or_iff_not_imp_left, Option.isSome_iff_ne_none] using signed

/-- The ways in which a round fails. -/
theorem round_eq_error (h : r.round = .error e) :
    (scan r.rest = none ∧ e = ⟨r.rest, r.position, .ofUnreadable r.rest⟩) ∨
    ∃ term rest, scan r.rest = some (term, rest) ∧
      ((r.tokens ≠ [] ∧ term.sign = none ∧ e = ⟨term.text, r.position, .missingSign⟩) ∨
        (r.tokens = [] ∨ term.sign ≠ none) ∧ ∃ fault,
          (term.token : Except TermFault (Token α)) = .error fault ∧
            e = ⟨term.text, r.position, fault⟩) := by
  rw [round] at h
  split at h
  · next unreadable => exact .inl ⟨unreadable, (Except.error.inj h).symm⟩
  · next term rest scanned =>
    refine .inr ⟨term, rest, scanned, ?_⟩
    split at h
    · next unsigned =>
      refine .inl ⟨?_, ?_, (Except.error.inj h).symm⟩
      · simpa using (Bool.and_eq_true_iff.mp unsigned).1
      · simpa using (Bool.and_eq_true_iff.mp unsigned).2
    · next signed =>
      split at h
      · next fault value =>
        refine .inr ⟨?_, fault, value, (Except.error.inj h).symm⟩
        simpa [Classical.or_iff_not_imp_left, Option.isSome_iff_ne_none] using signed
      · cases h

/-- A round takes at least one byte. -/
theorem byteLength_lt_of_round (h : r.round = .ok next) :
    r.position < next.position ∧ byteLength next.rest < byteLength r.rest := by
  obtain ⟨term, rest, token, scanned, -, -, rfl⟩ := round_eq_ok h
  have taken := byteLength_pos (text_ne_nil_of_scan scanned)
  have whole : byteLength r.rest = byteLength term.text + byteLength rest := by
    rw [← byteLength_append, text_append_of_scan scanned]
  change r.position < r.position + byteLength term.text ∧ byteLength rest < byteLength r.rest
  omega

/-! ## What the loop computes -/

/-- What is still to come, behind what has been read. -/
def result (r : Reading α) : Except TermError (List (PlacedToken α)) :=
  (Token.readFrom r.position r.tokens.isEmpty r.rest).map (r.tokens ++ ·)

theorem result_of_nil (done : r.rest = []) : r.result = .ok r.tokens := by
  rw [result, done, Token.readFrom_nil]
  exact congrArg Except.ok (List.append_nil r.tokens)

/-- A round leaves the result as it is. -/
theorem result_of_round (left : r.rest ≠ []) :
    r.result = match r.round with
      | .error e => .error e
      | .ok next => next.result := by
  rw [result, Token.readFrom_of_ne_nil left, round]
  cases scan r.rest with
  | none => rfl
  | some found =>
    obtain ⟨term, rest⟩ := found
    dsimp only
    split
    · rfl
    · cases (term.token : Except TermFault (Token α)) with
      | error fault => rfl
      | ok token =>
        have later : (r.tokens ++ [(⟨token, r.position, term.text⟩ : PlacedToken α)]).isEmpty =
            false := by simp
        simp only [result, later]
        cases (Token.readFrom (r.position + byteLength term.text) false rest :
          Except TermError (List (PlacedToken α))) with
        | error e => rfl
        | ok more => exact congrArg Except.ok (List.append_cons r.tokens _ more)

/-- The loop ends within as many rounds as bytes are left. -/
theorem run_eq_result {n : Nat} (enough : byteLength r.rest ≤ n) : r.run n = some r.result := by
  induction n generalizing r with
  | zero =>
    have done : r.rest = [] := by
      by_contra left
      exact absurd (byteLength_pos left) (Nat.not_lt.mpr enough)
    rw [run, if_pos done, result_of_nil done]
  | succ n ih =>
    rw [run]
    by_cases done : r.rest = []
    · rw [if_pos done, result_of_nil done]
    · rw [if_neg done, result_of_round done]
      cases round : r.round with
      | error e => rfl
      | ok next =>
        have shorter := (byteLength_lt_of_round round).2
        exact ih (by omega)

theorem run_start (text : List Char) :
    (start (Text.compact text)).run (byteLength (Text.compact text)) =
      some (Token.read text : Except TermError (List (PlacedToken α))) := by
  have enough : byteLength (start (Text.compact text) : Reading α).rest ≤
      byteLength (Text.compact text) := Nat.le_refl _
  rw [run_eq_result enough]
  change some (id <$> Token.readFrom 0 true (Text.compact text)) = _
  rw [id_map, Token.read]

/-- A loop that ends does so at a state on the way, where nothing is left or a round fails. -/
theorem exists_of_run_eq_some {n : Nat} {outcome : Except TermError (List (PlacedToken α))}
    (h : r.run n = some outcome) :
    ∃ s, r.Leads s ∧ ((s.rest = [] ∧ outcome = .ok s.tokens) ∨
      s.rest ≠ [] ∧ ∃ e, s.round = .error e ∧ outcome = .error e) := by
  induction n generalizing r with
  | zero =>
    rw [run] at h
    split at h
    · next done => exact ⟨r, .refl, .inl ⟨done, (Option.some.inj h).symm⟩⟩
    · cases h
  | succ n ih =>
    rw [run] at h
    split at h
    · next done => exact ⟨r, .refl, .inl ⟨done, (Option.some.inj h).symm⟩⟩
    · next left =>
      split at h
      · next e round => exact ⟨r, .refl, .inr ⟨left, e, round, (Option.some.inj h).symm⟩⟩
      · next next round =>
        obtain ⟨s, leads, ended⟩ := ih h
        exact ⟨s, .head round leads, ended⟩

/-! ## What every round keeps -/

/-- The text up to the offset is cut into terms, and their values have been read. -/
def Along (text : List Char) (r : Reading α) : Prop :=
  ∃ front terms tokens, text = front ++ r.rest ∧ r.position = byteLength front ∧
    Cut true terms front ∧ List.Forall₂ Denotes terms tokens ∧
    r.tokens = Token.place 0 terms tokens

end Reading

theorem Lexeme.IsTerm.text_ne_nil {term : Lexeme} (h : term.IsTerm) : term.text ≠ [] :=
  text_ne_nil_of_scan (Lexeme.scan_text_append h Lexeme.endsTerm_nil)

/-- A term behind a cut makes a longer one. -/
theorem Lexeme.Cut.append_term {leading : Bool} {terms : List Lexeme} {term : Lexeme}
    {text : List Char} (h : Cut leading terms text) (isTerm : term.IsTerm)
    (signed : leading = true ∧ terms = [] ∨ term.sign ≠ none) :
    Cut leading (terms ++ [term]) (text ++ term.text) := by
  induction h with
  | nil =>
    rw [List.nil_append, List.nil_append, ← List.append_nil term.text]
    exact .cons isTerm (signed.imp_left And.left) .nil
  | cons first allowed _ ih =>
    rw [List.cons_append, List.append_assoc]
    exact .cons first allowed (ih (.inr (signed.resolve_left (fun leads => nomatch leads.2))))

namespace Token

variable {α : Type} [Scalar α]

theorem place_append {terms : List Lexeme} {tokens : List (Token α)} {leading : Bool}
    {text : List Char} (cut : Cut leading terms text) (denotes : List.Forall₂ Denotes terms tokens)
    (position : Nat) (term : Lexeme) (token : Token α) :
    place position (terms ++ [term]) (tokens ++ [token]) =
      place position terms tokens ++ [⟨token, position + byteLength text, term.text⟩] := by
  induction denotes generalizing position leading text with
  | nil =>
    cases cut
    rfl
  | cons _ _ ih =>
    cases cut with
    | cons _ _ more =>
      rw [List.cons_append, List.cons_append, place, place, ih more, byteLength_append,
        Nat.add_assoc]
      rfl

end Token

namespace Reading

variable {α : Type} [Scalar α] {text : List Char} {r s next : Reading α}

theorem along_start (text : List Char) : (start text : Reading α).Along text :=
  ⟨[], [], [], rfl, rfl, .nil, .nil, rfl⟩

/-- What one round keeps. -/
theorem Along.round (h : r.Along text) (taken : r.round = .ok next) : next.Along text := by
  obtain ⟨front, terms, tokens, whole, position, cut, denotes, read⟩ := h
  obtain ⟨term, rest, token, scanned, signed, value, rfl⟩ := round_eq_ok taken
  have isTerm := isTerm_of_scan scanned
  refine ⟨front ++ term.text, terms ++ [term], tokens ++ [token], ?_, ?_, ?_, ?_, ?_⟩
  · rw [List.append_assoc, text_append_of_scan scanned, whole]
  · change r.position + byteLength term.text = _
    rw [byteLength_append, position]
  · refine cut.append_term isTerm (signed.imp_left fun unread => ⟨rfl, ?_⟩)
    cases denotes with
    | nil => rfl
    | cons _ _ =>
      rw [read, Token.place] at unread
      cases unread
  · exact List.rel_append denotes (.cons ((token_eq_ok_iff isTerm).mp value) .nil)
  · change r.tokens ++ [⟨token, r.position, term.text⟩] = _
    rw [Token.place_append cut denotes, Nat.zero_add, read, position]

/-- What all rounds keep. -/
theorem Along.leads (h : r.Along text) (leads : r.Leads s) : s.Along text := by
  induction leads with
  | refl => exact h
  | tail _ taken ih => exact ih.round taken

/-- A state on the way through a text stands at a boundary of characters, what it has left is the
text from there on, and every term that it cuts off takes some bytes up to a boundary. -/
structure Advances (text : List Char) (r : Reading α) : Prop where
  left : ∃ front, text = front ++ r.rest ∧ byteLength front = r.position
  boundary : String.Pos.Raw.IsValid (String.ofList text) ⟨r.position⟩
  taken : ∀ term rest, scan r.rest = some (term, rest) →
    r.rest = term.text ++ rest ∧ 0 < byteLength term.text ∧
      String.Pos.Raw.IsValid (String.ofList text) ⟨r.position + byteLength term.text⟩
  shorter : ∀ next, r.round = .ok next →
    r.position < next.position ∧ byteLength next.rest < byteLength r.rest

theorem Along.advances (h : r.Along text) : r.Advances text := by
  obtain ⟨front, terms, tokens, rfl, position, -⟩ := h
  refine ⟨⟨front, rfl, position.symm⟩, ?_, ?_, fun next => byteLength_lt_of_round⟩
  · rw [position]
    exact isValid_byteLength front r.rest
  · intro term rest scanned
    have split := text_append_of_scan scanned
    refine ⟨split.symm, byteLength_pos (text_ne_nil_of_scan scanned), ?_⟩
    rw [position, ← byteLength_append, ← split, ← List.append_assoc]
    exact isValid_byteLength (front ++ term.text) rest

end Reading

namespace Token

variable {α : Type} [Scalar α]

/-- Tokens that say a text without loss: their texts make it up, each has its place in it, only the
first may go without a sign, and each text by itself says its token. -/
structure Lossless (text : List Char) (placed : List (PlacedToken α)) : Prop where
  joined : placed.flatMap (·.text) = text
  position_eq : ∀ front t back, placed = front ++ t :: back →
    t.position = byteLength (front.flatMap (·.text))
  nonempty : ∀ t ∈ placed, t.text ≠ []
  signed : ∀ t ∈ placed.tail, ∃ sign more, t.text = Sign.char sign :: more
  alone : ∀ t ∈ placed, read t.text = .ok [⟨t.token, 0, t.text⟩]

variable {terms : List Lexeme} {tokens : List (Token α)} {leading : Bool} {text : List Char}

theorem flatMap_text_place (cut : Cut leading terms text)
    (denotes : List.Forall₂ Denotes terms tokens) (position : Nat) :
    (place position terms tokens).flatMap (·.text) = text := by
  induction denotes generalizing position leading text with
  | nil =>
    cases cut
    rfl
  | cons _ _ ih =>
    cases cut with
    | cons _ _ more => rw [place, List.flatMap_cons, ih more]

omit [Scalar α] in
theorem position_of_mem_place {position : Nat} {front back : List (PlacedToken α)}
    {t : PlacedToken α} (h : place position terms tokens = front ++ t :: back) :
    t.position = position + byteLength (front.flatMap (·.text)) := by
  induction front generalizing position terms tokens with
  | nil =>
    cases terms with
    | nil => cases h
    | cons term terms =>
      cases tokens with
      | nil => cases h
      | cons token tokens =>
        obtain ⟨rfl, -⟩ := List.cons.inj h
        rfl
  | cons s front ih =>
    cases terms with
    | nil => cases h
    | cons term terms =>
      cases tokens with
      | nil => cases h
      | cons token tokens =>
        obtain ⟨rfl, later⟩ := List.cons.inj h
        rw [ih later, List.flatMap_cons, byteLength_append, Nat.add_assoc]

/-- A placed token has the text and the value of one of the terms. -/
theorem exists_term_of_mem_place (cut : Cut leading terms text)
    (denotes : List.Forall₂ Denotes terms tokens) {position : Nat} {t : PlacedToken α}
    (member : t ∈ place position terms tokens) :
    ∃ term : Lexeme, term.IsTerm ∧ (leading = false → term.sign ≠ none) ∧
      term.Denotes t.token ∧ t.text = term.text := by
  induction denotes generalizing position leading text with
  | nil => cases member
  | @cons term token terms tokens value _ ih =>
    cases cut with
    | cons isTerm signed more =>
      rcases List.mem_cons.mp member with rfl | later
      · refine ⟨term, isTerm, fun follows => ?_, value, rfl⟩
        exact signed.resolve_left (by simp [follows])
      · obtain ⟨term', isTerm', signed', found⟩ := ih more later
        exact ⟨term', isTerm', fun _ => signed' rfl, found⟩

theorem lossless_place (cut : Cut true terms text)
    (denotes : List.Forall₂ Denotes terms tokens) : Lossless text (place 0 terms tokens) where
  joined := flatMap_text_place cut denotes 0
  position_eq front t back split := by rw [position_of_mem_place split, Nat.zero_add]
  nonempty t member := by
    obtain ⟨term, isTerm, -, -, same⟩ := exists_term_of_mem_place cut denotes member
    rw [same]
    exact isTerm.text_ne_nil
  signed t member := by
    cases denotes with
    | nil => cases member
    | cons _ later =>
      cases cut with
      | cons _ _ more =>
        obtain ⟨term, -, signed, -, same⟩ := exists_term_of_mem_place more later member
        obtain ⟨sign, hasSign⟩ := Option.ne_none_iff_exists'.mp (signed rfl)
        have head := Lexeme.head?_text_append [] hasSign
        rw [List.append_nil] at head
        obtain ⟨more, split⟩ := List.head?_eq_some_iff.mp head
        exact ⟨sign, more, same.trans split⟩
  alone t member := by
    obtain ⟨term, isTerm, -, value, same⟩ := exists_term_of_mem_place cut denotes member
    have single : Cut true [term] (term.text ++ []) := .cons isTerm (.inl rfl) .nil
    rw [List.append_nil] at single
    rw [same, read, isTerm.compact_text]
    exact readFrom_of_cut single (.cons value .nil)

/-- Where nothing is left, the whole text has been read. -/
theorem lossless_of_along {r : Reading α} (h : r.Along text) (done : r.rest = []) :
    Lossless text r.tokens := by
  obtain ⟨front, terms, tokens, whole, -, cut, denotes, read⟩ := h
  rw [done, List.append_nil] at whole
  rw [whole, read]
  exact lossless_place cut denotes

/-- Reading takes at least one byte in each round and ends within as many rounds as the text without
its blanks has bytes, always at boundaries of characters. If the text is read, it is read without
loss. -/
theorem read_lossless (text : List Char) :
    (∀ r : Reading α, (Reading.start (Text.compact text)).Leads r →
      r.Advances (Text.compact text)) ∧
    (Reading.start (Text.compact text)).run (byteLength (Text.compact text)) =
      some (read text : Except TermError (List (PlacedToken α))) ∧
    ∀ placed : List (PlacedToken α), read text = .ok placed →
      Lossless (Text.compact text) placed := by
  refine ⟨fun r leads => ((Reading.along_start _).leads leads).advances, Reading.run_start text, ?_⟩
  intro placed found
  obtain ⟨s, leads, ⟨done, same⟩ | ⟨-, e, -, failed⟩⟩ :=
    Reading.exists_of_run_eq_some ((Reading.run_start text).trans (congrArg some found))
  · obtain rfl := Except.ok.inj same
    exact lossless_of_along ((Reading.along_start _).leads leads) done
  · cases failed

/-- Blanks inside of a term and a number without digits behind its point. -/
theorem read_lossless_spaced :
    ∃ placed : List (PlacedToken Float), read "2. x ^ 2\t- .5x".toList = .ok placed ∧
      placed.map (·.position) = [0, 5] ∧ Lossless "2.x^2-.5x".toList placed := by
  have run : (read "2. x ^ 2\t- .5x".toList : Except TermError (List (PlacedToken Float))).map
      (·.map (·.position)) = .ok [0, 5] := by
    decide +kernel
  have compact : Text.compact "2. x ^ 2\t- .5x".toList = "2.x^2-.5x".toList := by decide +kernel
  cases found : (read "2. x ^ 2\t- .5x".toList : Except TermError (List (PlacedToken Float))) with
  | error e =>
    rw [found] at run
    cases run
  | ok placed =>
    rw [found] at run
    exact ⟨placed, rfl, Except.ok.inj run, compact ▸ (read_lossless _).2.2 placed found⟩

end Token

end CurveArea
