import CurveArea.Decimal.Nearest

/-!
# Scalars

The arithmetic that coefficients, bounds and areas are computed in. Polynomials, integrals, Riemann
sums and reports are defined once, over any `Scalar`. The program runs on `Float`, where every
operation rounds to binary64; on `Rat` the same definitions compute exactly, which is the yardstick
for what rounding leaves to chance.
-/

namespace CurveArea

/-- Numbers to compute areas with. The order and equality are those that the arithmetic itself
decides, so on `Float` a NaN is unordered and differs from itself. -/
class Scalar (α : Type) extends Add α, Sub α, Mul α, Div α, Neg α, LT α, LE α, BEq α where
  decidableLT : DecidableLT α
  decidableLE : DecidableLE α
  zero : α
  one : α
  /-- What a sum of no terms is; adding a term to it gives the term. -/
  emptySum : α
  /-- The magnitude below which a coefficient counts as zero. -/
  tolerance : α
  /-- The number nearest to a natural number. -/
  ofNat : Nat → α
  /-- The number nearest to `digits / 10 ^ places`. -/
  ofDecimal (digits places : Nat) : α
  abs : α → α
  /-- A power with a natural exponent; the exponent 0 gives one, whatever the base. -/
  power : α → Nat → α
  /-- Neither an infinity nor NaN. -/
  isFinite : α → Bool

namespace Scalar

instance instDecidableLT {α : Type} [Scalar α] : DecidableLT α := decidableLT

instance instDecidableLE {α : Type} [Scalar α] : DecidableLE α := decidableLE

/-- The larger of two numbers; a NaN is passed over for the other one. -/
def larger {α : Type} [Scalar α] (x y : α) : α :=
  if x < y then y else if x ≤ x then x else y

/-- The smaller of two numbers; a NaN is passed over for the other one. -/
def smaller {α : Type} [Scalar α] (x y : α) : α :=
  if y < x then y else if x ≤ x then x else y

end Scalar

namespace Binary64

/-- Repeated squaring: `result` is multiplied by the powers `x, x ^ 2, x ^ 4, …` that the binary
digits of `n` call for, from the lowest digit up, each product rounded. The fuel bounds the number
of binary digits. -/
def squaringPower (x : Float) (n : Nat) (result : Float) : (fuel : Nat) → Float
  | 0 => result
  | fuel + 1 =>
    let result := if n % 2 = 1 then result * x else result
    if n / 2 = 0 then result else squaringPower (x * x) (n / 2) result fuel

/-- The largest exponent that is reached by repeated squaring. -/
def maxSquaringExponent : Nat := 2147483647

/-- A power of a binary64 number (`power`): by repeated squaring as long as the exponent fits 31
bits, by the platform's power function of two real numbers beyond that. -/
def power (x : Float) (n : Nat) : Float :=
  if n ≤ maxSquaringExponent then squaringPower x n 1.0 32 else Float.pow x (Float.ofNat n)

end Binary64

namespace Scalar

instance instFloat : Scalar Float where
  decidableLT := inferInstance
  decidableLE := inferInstance
  zero := 0.0
  one := 1.0
  emptySum := -0.0
  tolerance := 1e-10
  ofNat := Float.ofNat
  ofDecimal digits places := Decimal.nearest digits (-(places : Int))
  abs := Float.abs
  power := Binary64.power
  isFinite := Float.isFinite

instance instRat : Scalar Rat where
  decidableLT := inferInstance
  decidableLE := inferInstance
  zero := 0
  one := 1
  emptySum := 0
  tolerance := mkRat 1 (Nat.pow 10 10)
  ofNat n := (n : Rat)
  ofDecimal digits places := mkRat digits (Nat.pow 10 places)
  abs := Rat.abs
  power := Rat.pow
  isFinite _ := true

end Scalar

end CurveArea
