import CurveArea.Polynomial.Basic
import CurveArea.Term.Token

/-!
# The text of a polynomial

`parse` adds up the terms of a text. `format` writes the terms that count from the highest degree
down: the first keeps its sign, the others are joined by a spaced operator and show their
magnitude. What `format` writes, `parse` reads.
-/

namespace CurveArea

namespace Polynomial

/-- The sum of the terms of tokens (`reduce_tokens`). -/
def ofTokens {α : Type} [Scalar α] (tokens : List (PlacedToken α)) : Polynomial α :=
  ofTerms (tokens.map fun placed => (placed.token.degree, placed.token.coefficient))

/-- The polynomial that a text says (`parse_polynomial`); the empty text says the zero polynomial.
-/
def parse {α : Type} [Scalar α] (text : String) : Except (AreaError α) (Polynomial α) :=
  match Token.read text.toList with
  | .ok tokens => .ok (ofTokens tokens)
  | .error e => .error e.toAreaError

/-- The power of the variable in a term. -/
def powerChars (degree : Degree) : List Char :=
  if degree = 1 then [Lexeme.variableChar]
  else Lexeme.variableChar :: '^' :: Decimal.digitChars degree.toNat

/-- A term with the sign at its coefficient (`render_term`). A coefficient of one is not written
before a power. -/
def termChars (degree : Degree) (coefficient : Float) : List Char :=
  if degree = 0 then Decimal.plainChars coefficient
  else if coefficient == 1.0 then powerChars degree
  else if coefficient == -1.0 then '-' :: powerChars degree
  else Decimal.plainChars coefficient ++ powerChars degree

/-- A term behind another one: an operator and the magnitude. -/
def laterTermChars (degree : Degree) (coefficient : Float) : List Char :=
  if coefficient < 0.0 then ' ' :: '-' :: ' ' :: termChars degree (-coefficient)
  else ' ' :: '+' :: ' ' :: termChars degree coefficient

/-- The characters of `format`. -/
def formatChars (p : Polynomial Float) : List Char :=
  match p.significantTerms.reverse with
  | [] => ['0']
  | first :: later =>
    termChars first.1 first.2 ++ later.flatMap fun term => laterTermChars term.1 term.2

/-- The canonical text of a polynomial, such as `2x^2 + 3x - 4` (`format_polynomial`). -/
def format (p : Polynomial Float) : String := String.ofList p.formatChars

end Polynomial

end CurveArea
