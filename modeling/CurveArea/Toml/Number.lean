import CurveArea.Toml.Quoted
import CurveArea.Toml.Section

/-!
# TOML numbers

Whole numbers in four bases and decimal fractions. Underscores may stand between two digits and
nowhere else, a decimal number has no leading zero, and a point has a digit on either side.

Not all of this is settled while a document is read. Of a whole number with underscores, only what
stands around the underscores is; a number that turns out to have other characters in it, or no
digits behind the mark of its base, is read as a bad number, just as one that is out of range.
-/

namespace CurveArea.Toml

/-- The digits of a group, whose underscores all stand between two digits. -/
def digitGroup? (isDigit : Char → Bool) : List Char → Option (List Char)
  | [] => none
  | [d] => if isDigit d then some [d] else none
  | d :: '_' :: rest => if isDigit d then (digitGroup? isDigit rest).map (d :: ·) else none
  | d :: rest => if isDigit d then (digitGroup? isDigit rest).map (d :: ·) else none

/-- The digits of a group that starts with a zero only if it is all there is. -/
def leadingGroup? (text : List Char) : Option (List Char) :=
  match digitGroup? Char.isDigit text with
  | some ('0' :: _ :: _) => none
  | group => group

/-- Whether every underscore of a text stands between two digits. -/
def underscoresFit (isDigit : Char → Bool) (text : List Char) : Bool :=
  text.head? ≠ some '_' && text.getLast? ≠ some '_' &&
    (text.zip text.tail).all fun (c, d) => (c ≠ '_' || isDigit d) && (d ≠ '_' || isDigit c)

/-- Whether a character is a hexadecimal digit. -/
def isHexDigit (c : Char) : Bool := (hexDigit? c).isSome

/-- A whole number in a base of up to sixteen, without a sign. -/
def inBase? (base : Nat) (text : List Char) : Option Node :=
  let digits := text.filter (· ≠ '_')
  if underscoresFit isHexDigit text && digits.all fun c => (hexDigit? c).any (· < base) then
    if digits.isEmpty then some .badNumber
    else some (.integer (digits.foldl (fun n c => base * n + (hexDigit? c).getD 0) 0 : Nat))
  else none

/-- A sign and what follows it; no sign counts as a plus. -/
def splitSign : List Char → Bool × List Char
  | '-' :: rest => (true, rest)
  | '+' :: rest => (false, rest)
  | rest => (false, rest)

/-- The exponent of a fraction, behind its letter. -/
def exponent? (text : List Char) : Option Int := do
  let (negative, body) := splitSign text
  let digits ← digitGroup? Char.isDigit body
  let n : Int := Decimal.digitsValue digits
  return if negative then -n else n

/-- A number that is not whole, without its sign. A fraction or an exponent has to follow the whole
part. -/
def fraction? (text : List Char) : Option Float := do
  let isMark (c : Char) : Bool := c = 'e' || c = 'E'
  let mantissa := text.takeWhile (!isMark ·)
  let exponent ← match text.dropWhile (!isMark ·) with
    | [] => some none
    | _ :: rest => (exponent? rest).map some
  let whole ← leadingGroup? (mantissa.takeWhile (· ≠ '.'))
  let places ← match mantissa.dropWhile (· ≠ '.') with
    | [] => if exponent.isSome then some [] else none
    | _ :: rest => digitGroup? Char.isDigit rest
  return Decimal.nearest (Decimal.digitsValue (whole ++ places))
    (exponent.getD 0 - places.length)

/-- A number that has no digits, without its sign. -/
def special? (text : List Char) : Option Float :=
  if text = "inf".toList then some Binary64.infinity
  else if text = "nan".toList then some Binary64.notANumber
  else none

/-- Whether a text can start a whole number in base ten: with a digit, a zero only if it is alone,
and behind the digits with an underscore, if anything. -/
def startsWhole (text : List Char) : Bool :=
  if text.head? = some '0' then text.length = 1
  else text.head?.any Char.isDigit && (text.dropWhile Char.isDigit).head?.all (· = '_')

/-- A whole number in base ten, without its sign. -/
def whole? (negative : Bool) (text : List Char) : Option Node :=
  if startsWhole text && !text.contains ' ' && underscoresFit isHexDigit text then
    let digits := text.filter (· ≠ '_')
    let n : Int := Decimal.digitsValue digits
    if digits.all Char.isDigit then some (.integer (if negative then -n else n))
    else some .badNumber
  else none

/-- A number in base ten behind its sign. -/
def decimal? (negative : Bool) (text : List Char) : Option Node :=
  if text.any fun c => c = '.' || c = 'e' || c = 'E' then
    (fraction? text).map fun x => .fraction (if negative then -x else x)
  else whole? negative text

/-- A number. -/
def number? (text : List Char) : Option Node :=
  match text with
  | '0' :: 'x' :: digits => inBase? 16 digits
  | '0' :: 'o' :: digits => inBase? 8 digits
  | '0' :: 'b' :: digits => inBase? 2 digits
  | _ =>
    let (negative, body) := splitSign text
    match special? body with
    | some x => some (.leaf (.float (if negative then -x else x)))
    | none => decimal? negative body

end CurveArea.Toml
