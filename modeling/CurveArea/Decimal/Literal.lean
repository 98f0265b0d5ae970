import CurveArea.Decimal.Nearest

/-!
# Reading numbers

Two readers share the digits. `Literal` is a run of digits with at most one point, the form of a
number inside a polynomial. `read?` takes a whole text, as a user types it at a prompt: a sign, then
such a run with an optional exponent, or the words for infinity and NaN.
-/

namespace CurveArea.Decimal

/-- The value of a run of digits; other characters do not occur. -/
def digitsValue (digits : List Char) : Nat :=
  digits.foldl (fun value c => 10 * value + (c.toNat - '0'.toNat)) 0

/-- A digit or the decimal point. -/
def isNumeral (c : Char) : Bool := c.isDigit || c == '.'

/-- Whether a run of digits and points is a number: some digit, and at most one point. -/
def isLiteral (run : List Char) : Bool :=
  run.any Char.isDigit && run.all isNumeral && decide (run.count '.' ≤ 1)

/-- All digits of a literal, without its point. -/
def literalDigits (run : List Char) : Nat := digitsValue (run.filter Char.isDigit)

/-- How many digits of a literal stand behind its point. -/
def literalPlaces (run : List Char) : Nat := (run.dropWhile (· != '.')).tail.length

/-- A signed whole number: digits, after at most one sign. -/
def wholeNumber? (text : List Char) : Option Int :=
  match text with
  | '-' :: digits => (unsigned? digits).map fun n => -(n : Int)
  | '+' :: digits => (unsigned? digits).map Int.ofNat
  | digits => (unsigned? digits).map Int.ofNat
where
  unsigned? (digits : List Char) : Option Nat :=
    if !digits.isEmpty && digits.all Char.isDigit then some (digitsValue digits) else none

/-- The exponent behind a literal: nothing, or the letter e in either case and a whole number. -/
def exponent? : List Char → Option Int
  | [] => some 0
  | c :: text => if c == 'e' || c == 'E' then wholeNumber? text else none

/-- A number without its sign. The case of the words does not matter. -/
def magnitude? (text : List Char) : Option Float :=
  let word := text.map Char.toLower
  if word = "inf".toList ∨ word = "infinity".toList then some Binary64.infinity
  else if word = "nan".toList then some Binary64.notANumber
  else
    let run := text.takeWhile isNumeral
    if isLiteral run then
      (exponent? (text.dropWhile isNumeral)).map fun e =>
        nearest (literalDigits run) (e - literalPlaces run)
    else none

/-- The number that a text says, with at most one sign in front. -/
def read? (text : String) : Option Float :=
  match text.toList with
  | '-' :: rest => (magnitude? rest).map fun x => -x
  | '+' :: rest => magnitude? rest
  | rest => magnitude? rest

/-- Whether a whole number fits 64 bits with a sign. -/
def fitsWord (n : Int) : Bool := -0x8000000000000000 ≤ n && n < 0x8000000000000000

/-- The whole number of 64 bits with a sign that a text says. -/
def readInt? (text : String) : Option Int := do
  let n ← wholeNumber? text.toList
  if fitsWord n then some n else none

end CurveArea.Decimal
