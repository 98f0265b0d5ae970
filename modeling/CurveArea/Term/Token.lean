import CurveArea.AreaError
import CurveArea.Scalar
import CurveArea.Term.Lexeme
import CurveArea.Text.Blank

/-!
# Tokens of a polynomial's text

A token is the value of one written term. A text is read term by term after its blanks are dropped;
positions are byte offsets in what remains. Every term but the first needs its sign, so that
`x^2.5` and `2x3` are refused instead of being read as two terms. The first fault ends the reading.
-/

namespace CurveArea

/-- The value of a written term. -/
inductive Token (α : Type)
  | power (coefficient : α) (degree : Degree)
  | constant (value : α)
  deriving DecidableEq, Repr

/-- The coefficient of a token's term (`Token::coefficient`). -/
def Token.coefficient {α : Type} : Token α → α
  | power coefficient _ => coefficient
  | constant value => value

/-- The degree of a token's term (`Token::degree`). -/
def Token.degree {α : Type} : Token α → Degree
  | power _ degree => degree
  | constant _ => 0

/-- A token with its text and the byte offset of it (`SpannedToken`). -/
structure PlacedToken (α : Type) where
  token : Token α
  position : Nat
  text : List Char
  deriving DecidableEq, Repr

/-- Why a text is no term, or none that may stand where it does. -/
inductive TermFault
  | strayExponent
  | loneSign
  | repeatedSign
  | unexpected
  | missingSign
  | infiniteNumber
  | exponentTooLarge
  deriving DecidableEq, Repr

/-- The reason that is shown for a fault. -/
def TermFault.reason : TermFault → String
  | strayExponent => "'^' must follow x and be followed by a non-negative integer exponent"
  | loneSign => "sign without a term"
  | repeatedSign => "repeated sign"
  | unexpected => "expected a number or 'x'"
  | missingSign => "missing '+' or '-' between terms"
  | infiniteNumber => "coefficient is not finite"
  | exponentTooLarge => "exponent does not fit in 32 bits"

/-- Why no term can be read at the start of a text (`unmatched_reason`). -/
def TermFault.ofUnreadable : List Char → TermFault
  | '^' :: _ => strayExponent
  | [c] => if (Sign.ofChar? c).isSome then loneSign else unexpected
  | c :: d :: _ =>
    if (Sign.ofChar? c).isSome && (Sign.ofChar? d).isSome then repeatedSign else unexpected
  | [] => unexpected

/-- A fault with the text it is about and the byte offset of it. -/
structure TermError where
  fragment : List Char
  position : Nat
  fault : TermFault
  deriving DecidableEq, Repr

/-- The failure of an area computation that a fault in a text is (`malformed`). -/
def TermError.toAreaError {α : Type} (e : TermError) : AreaError α :=
  .malformedTerm (String.ofList e.fragment) e.position e.fault.reason

namespace Lexeme

variable {α : Type} [Scalar α]

/-- The number of a written term, which has to be finite; an absent one is one. -/
def magnitude : Option (List Char) → Except TermFault α
  | none => .ok Scalar.one
  | some digits =>
    let value : α :=
      Scalar.ofDecimal (Decimal.literalDigits digits) (Decimal.literalPlaces digits)
    if Scalar.isFinite value then .ok value else .error .infiniteNumber

/-- The degree that a written exponent names; an absent one is the first degree. -/
def degree : Option (List Char) → Except TermFault Degree
  | none => .ok 1
  | some digits =>
    match Degree.ofNat? (Decimal.digitsValue digits) with
    | some d => .ok d
    | none => .error .exponentTooLarge

/-- A magnitude with the sign in front of it. -/
def applySign (sign : Option Sign) (magnitude : α) : α :=
  if sign = some .minus then -magnitude else magnitude

/-- The value of a written term (`to_token`). The number is looked at before the exponent. -/
def token : Lexeme → Except TermFault (Token α)
  | constant sign number => do
    let value ← magnitude (some number)
    return .constant (applySign sign value)
  | power sign number exponent => do
    let value ← magnitude number
    let d ← degree exponent
    return .power (applySign sign value) d

end Lexeme

/-- The number of bytes that a text takes. -/
def byteLength (text : List Char) : Nat := text.foldr (fun c length => c.utf8Size + length) 0

namespace Token

variable {α : Type} [Scalar α]

/-- The tokens of a text without blanks that starts at a byte offset; `leading` tells whether its
first term may go without a sign. -/
def readFrom (position : Nat) (leading : Bool) (text : List Char) :
    Except TermError (List (PlacedToken α)) :=
  if text = [] then .ok []
  else
    match _scanned : Lexeme.scan text with
    | none => .error ⟨text, position, .ofUnreadable text⟩
    | some (lexeme, rest) =>
      if !leading && lexeme.sign.isNone then .error ⟨lexeme.text, position, .missingSign⟩
      else
        match (lexeme.token : Except TermFault (Token α)) with
        | .error fault => .error ⟨lexeme.text, position, fault⟩
        | .ok token => do
          let more ← readFrom (position + byteLength lexeme.text) false rest
          return ⟨token, position, lexeme.text⟩ :: more
termination_by text.length
decreasing_by exact Lexeme.length_lt_of_scan ‹_›

/-- The tokens of a text, whose blanks are dropped first (`tokenize`). -/
def read (text : List Char) : Except TermError (List (PlacedToken α)) :=
  readFrom 0 true (Text.compact text)

end Token

end CurveArea
