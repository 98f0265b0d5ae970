import CurveArea.Binary64

/-!
# Decimals read as binary64

`Decimal.nearest digits exponent` is the binary64 number nearest to `digits * 10 ^ exponent`.
-/

namespace CurveArea.Decimal

/-- The binary64 number nearest to `digits * 10 ^ exponent`. An exponent so large that even one
unit overflows, or so small that all of `digits` vanishes below half of the smallest positive
number, is answered without writing the power of ten out: `digits < 2 ^ (log2 digits + 1)`, and
three binary digits are less than one decimal digit. -/
def nearest (digits : Nat) (exponent : Int) : Float :=
  if digits = 0 then Binary64.ofBits 0
  else if 400 < exponent then Binary64.infinity
  else if exponent + (digits.log2 / 3 + 2 : Nat) < -330 then Binary64.ofBits 0
  else Binary64.nearest (digits * Nat.pow 10 exponent.toNat) (Nat.pow 10 (-exponent).toNat)

end CurveArea.Decimal
