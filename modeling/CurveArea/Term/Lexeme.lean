import CurveArea.Decimal.Literal

/-!
# Written terms

A term as it stands in the text of a polynomial: an optional sign, then a number, or an optional
number followed by `x` and an optional exponent. `Lexeme.scan` reads the longest one at the start of
a text without blanks. Reading loses nothing: what a lexeme says, followed by the rest, is the
text, and since a lexeme says at least one character the rest is shorter.
-/

namespace CurveArea

/-- The sign in front of a term. -/
inductive Sign
  | plus
  | minus
  deriving DecidableEq, Repr

namespace Sign

/-- The character of a sign. -/
def char : Sign → Char
  | plus => '+'
  | minus => '-'

/-- The sign that a character is. -/
def ofChar? : Char → Option Sign
  | '+' => some plus
  | '-' => some minus
  | _ => none

theorem char_of_ofChar? {c : Char} {sign : Sign} (h : ofChar? c = some sign) : sign.char = c := by
  unfold ofChar? at h
  split at h <;> simp_all [char] <;> subst h <;> rfl

end Sign

/-- A term as written (`RawTerm`). The runs of digits are kept as they stand. -/
inductive Lexeme
  /-- A number alone. -/
  | constant (sign : Option Sign) (number : List Char)
  /-- The variable with what stands before and behind it. -/
  | power (sign : Option Sign) (number : Option (List Char)) (exponent : Option (List Char))
  deriving DecidableEq, Repr

namespace Lexeme

/-- The only variable (`VARIABLE`). -/
def variableChar : Char := 'x'

/-- The sign of a written term, if it has one. -/
def sign : Lexeme → Option Sign
  | constant sign _ => sign
  | power sign _ _ => sign

/-- The characters of an optional sign. -/
def signText (sign : Option Sign) : List Char := (sign.map Sign.char).toList

/-- The characters of an optional exponent, with its mark. -/
def exponentText : Option (List Char) → List Char
  | none => []
  | some digits => '^' :: digits

/-- The text of a term. -/
def text : Lexeme → List Char
  | constant sign number => signText sign ++ number
  | power sign number exponent =>
    signText sign ++ number.getD [] ++ variableChar :: exponentText exponent

/-- A sign at the start of a text, and the rest (`sign`). -/
def scanSign : List Char → Option Sign × List Char
  | [] => (none, [])
  | c :: rest =>
    match Sign.ofChar? c with
    | some sign => (some sign, rest)
    | none => (none, c :: rest)

/-- A number at the start of a text, and the rest (`number`): the whole run of digits and points, if
that is a number. Nothing is read of a run with two points. -/
def scanNumber (text : List Char) : Option (List Char) × List Char :=
  let run := text.takeWhile Decimal.isNumeral
  if Decimal.isLiteral run then (some run, text.dropWhile Decimal.isNumeral) else (none, text)

/-- An exponent at the start of a text, and the rest (`exponent`): its mark and all digits behind
it. A mark without digits stays. -/
def scanExponent : List Char → Option (List Char) × List Char
  | '^' :: rest =>
    let digits := rest.takeWhile Char.isDigit
    if digits.isEmpty then (none, '^' :: rest) else (some digits, rest.dropWhile Char.isDigit)
  | text => (none, text)

/-- The term at the start of a text, and the rest (`raw_term`). -/
def scan (text : List Char) : Option (Lexeme × List Char) :=
  let (sign, afterSign) := scanSign text
  let (number, afterNumber) := scanNumber afterSign
  match afterNumber with
  | c :: afterVariable =>
    if c = variableChar then
      let (exponent, rest) := scanExponent afterVariable
      some (power sign number exponent, rest)
    else number.map fun digits => (constant sign digits, afterNumber)
  | [] => number.map fun digits => (constant sign digits, [])

theorem signText_append_scanSign (text : List Char) :
    signText (scanSign text).1 ++ (scanSign text).2 = text := by
  cases text with
  | nil => rfl
  | cons c rest =>
    simp only [scanSign]
    split
    · next sign h => simp [signText, Sign.char_of_ofChar? h]
    · simp [signText]

theorem number_append_scanNumber (text : List Char) :
    (scanNumber text).1.getD [] ++ (scanNumber text).2 = text := by
  simp only [scanNumber]
  split <;> simp

theorem exponentText_append_scanExponent (text : List Char) :
    exponentText (scanExponent text).1 ++ (scanExponent text).2 = text := by
  unfold scanExponent
  split
  · dsimp only
    split <;> simp [exponentText]
  · rfl

/-- What a scan can find behind a sign: the variable, with a number before it if one was scanned, or
a number alone. -/
theorem scan_cases {text rest : List Char} {lexeme : Lexeme}
    (h : scan text = some (lexeme, rest)) :
    (∃ afterVariable, (scanNumber (scanSign text).2).2 = variableChar :: afterVariable ∧
      lexeme = power (scanSign text).1 (scanNumber (scanSign text).2).1
        (scanExponent afterVariable).1 ∧
      rest = (scanExponent afterVariable).2) ∨
    ∃ digits, (scanNumber (scanSign text).2).1 = some digits ∧
      lexeme = constant (scanSign text).1 digits ∧ rest = (scanNumber (scanSign text).2).2 := by
  simp only [scan] at h
  split at h
  · next c afterVariable left =>
    split at h
    · next isVariable =>
      obtain ⟨rfl, rfl⟩ := Prod.mk.inj (Option.some.inj h)
      exact .inl ⟨afterVariable, isVariable ▸ left, rfl, rfl⟩
    · obtain ⟨digits, found, same⟩ := Option.map_eq_some_iff.mp h
      obtain ⟨rfl, rfl⟩ := Prod.mk.inj same
      exact .inr ⟨digits, found, rfl, rfl⟩
  · next left =>
    obtain ⟨digits, found, same⟩ := Option.map_eq_some_iff.mp h
    obtain ⟨rfl, rfl⟩ := Prod.mk.inj same
    exact .inr ⟨digits, found, rfl, left.symm⟩

/-- Scanning loses nothing. -/
theorem text_append_of_scan {text rest : List Char} {lexeme : Lexeme}
    (h : scan text = some (lexeme, rest)) : lexeme.text ++ rest = text := by
  have hsign := signText_append_scanSign text
  have hnumber := number_append_scanNumber (scanSign text).2
  obtain ⟨afterVariable, left, rfl, rfl⟩ | ⟨digits, found, rfl, rfl⟩ := scan_cases h
  · rw [left] at hnumber
    simp only [Lexeme.text, List.append_assoc, List.cons_append, exponentText_append_scanExponent]
    rw [hnumber, hsign]
  · simp only [found, Option.getD_some] at hnumber
    simp only [Lexeme.text, List.append_assoc]
    rw [hnumber, hsign]

/-- A number that was scanned is a number. -/
theorem isLiteral_of_scanNumber {text digits : List Char} (h : (scanNumber text).1 = some digits) :
    Decimal.isLiteral digits = true := by
  simp only [scanNumber] at h
  split at h
  · next hrun =>
    obtain rfl := Option.some.inj h
    exact hrun
  · simp at h

/-- A scanned term says at least one character. -/
theorem text_ne_nil_of_scan {text rest : List Char} {lexeme : Lexeme}
    (h : scan text = some (lexeme, rest)) : lexeme.text ≠ [] := by
  obtain ⟨afterVariable, -, rfl, -⟩ | ⟨digits, found, rfl, -⟩ := scan_cases h
  · simp [Lexeme.text]
  · intro empty
    obtain rfl : digits = [] := (List.append_eq_nil_iff.mp empty).2
    have literal := isLiteral_of_scanNumber found
    simp [Decimal.isLiteral] at literal

/-- The sign of a scanned term is the one that the text starts with. -/
theorem sign_of_scan {text rest : List Char} {lexeme : Lexeme}
    (h : scan text = some (lexeme, rest)) : lexeme.sign = (scanSign text).1 := by
  obtain ⟨afterVariable, -, rfl, -⟩ | ⟨digits, -, rfl, -⟩ := scan_cases h
  · rfl
  · rfl

/-- What is left after a scanned term is shorter. -/
theorem length_lt_of_scan {text rest : List Char} {lexeme : Lexeme}
    (h : scan text = some (lexeme, rest)) : rest.length < text.length := by
  have hlength := congrArg List.length (text_append_of_scan h)
  have := List.length_pos_iff.mpr (text_ne_nil_of_scan h)
  simp only [List.length_append] at hlength
  omega

end Lexeme

end CurveArea
