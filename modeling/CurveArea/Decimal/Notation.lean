import CurveArea.Decimal.Shortest

/-!
# Writing numbers

`Decimal.plain` writes a number with its shortest digits and `Decimal.fixed` with a given number of
places. Both are positional: no exponent is ever written, whatever the magnitude.
-/

namespace CurveArea.Decimal

/-- The digits of `n`, ten being the base. -/
def digitChars (n : Nat) : List Char := Nat.toDigits 10 n

/-- `digits` with a point before its last `places` digits, and zeros in front where these reach
beyond the leading digit. No point is written for no places. -/
def withPoint (digits places : Nat) : List Char :=
  let written := digitChars digits
  if places = 0 then written
  else if places < written.length then
    written.take (written.length - places) ++ '.' :: written.drop (written.length - places)
  else '0' :: '.' :: (List.replicate (places - written.length) '0' ++ written)

/-- `digits * 10 ^ place` in positional notation. -/
def positional (digits : Nat) : (place : Int) → List Char
  | .ofNat zeros => digitChars digits ++ List.replicate zeros '0'
  | .negSucc places => withPoint digits (places + 1)

/-- The text of a number that is written with `magnitude`; a sign is written for zero too, and
never for NaN. -/
def signed (magnitude : Nat → Int → List Char) (x : Float) : List Char :=
  match Binary64.value x with
  | .nan => ['N', 'a', 'N']
  | .infinite negative => mark negative ++ ['i', 'n', 'f']
  | .finite negative mantissa exponent => mark negative ++ magnitude mantissa exponent
where
  mark (negative : Bool) : List Char := if negative then ['-'] else []

/-- The characters of `plain`. -/
def plainChars (x : Float) : List Char :=
  signed (fun mantissa exponent =>
    if mantissa = 0 then ['0']
    else
      let (digits, place) := shortest mantissa exponent
      positional digits place) x

/-- A number with the fewest digits that read back as it, such as `0.1`, `-0`, `3` or `inf`. -/
def plain (x : Float) : String := String.ofList (plainChars x)

/-- A number rounded to `places` places, a half of the last one going to the even neighbour. -/
def fixed (places : Nat) (x : Float) : String :=
  String.ofList <| signed (fun mantissa exponent =>
    let num := mantissa <<< exponent.toNat * Nat.pow 10 places
    withPoint (Binary64.roundHalfEven num (1 <<< (-exponent).toNat)) places) x

end CurveArea.Decimal
