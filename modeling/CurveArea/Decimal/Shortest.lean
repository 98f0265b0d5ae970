import CurveArea.Binary64

/-!
# Shortest decimals

The decimal number with the fewest digits among those that read back as a given binary64 number,
and of these the nearest to it. The numbers that read back form an interval around the value: half
of the gap to the neighbour on either side, its ends included when the mantissa is even. The search
walks the grids of multiples of a power of ten from coarse to fine. The first grid with a point in
the interval gives the fewest digits, and if it has one then one of the two grid points next to the
value is such a point.
-/

namespace CurveArea.Decimal

/-- A positive number and the ends of its rounding interval, all over one denominator. -/
structure RoundingInterval where
  low : Nat
  mid : Nat
  high : Nat
  den : Nat
  closed : Bool
  deriving DecidableEq, Repr

/-- The rounding interval of `mantissa * 2 ^ exponent`. In quarters of a last place, the ends are
two away, but the lower one only one away at a power of two, where the gap below is half as wide. -/
def RoundingInterval.of (mantissa : Nat) (exponent : Int) : RoundingInterval :=
  let shift := (exponent - 2).toNat
  let below := if mantissa = Binary64.leadingBit ∧ exponent ≠ Binary64.minExponent then 1 else 2
  { low := (4 * mantissa - below) <<< shift
    mid := (4 * mantissa) <<< shift
    high := (4 * mantissa + 2) <<< shift
    den := 1 <<< (2 - exponent).toNat
    closed := mantissa % 2 = 0 }

/-- Whether `num / den` lies in the interval, `num` being over the interval's own denominator. -/
def RoundingInterval.holds (i : RoundingInterval) (num : Nat) : Bool :=
  if i.closed then i.low ≤ num ∧ num ≤ i.high else i.low < num ∧ num < i.high

/-- The interval with every number of it multiplied by `k`. -/
def RoundingInterval.scaleUp (i : RoundingInterval) (k : Nat) : RoundingInterval :=
  { i with low := i.low * k, mid := i.mid * k, high := i.high * k }

/-- The multiple of `10 ^ place` next to the middle of the interval that lies in it, as the number
of units. Of two such multiples it is the nearer, and the upper one if they are equally near. -/
def RoundingInterval.onGrid? (i : RoundingInterval) (place : Int) : Option Nat :=
  let i := i.scaleUp (Nat.pow 10 (-place).toNat)
  let unit := i.den * Nat.pow 10 place.toNat
  let lower := i.mid / unit
  let upper := lower + 1
  match i.holds (lower * unit), i.holds (upper * unit) with
  | true, true => some (if 2 * i.mid < (lower + upper) * unit then lower else upper)
  | true, false => some lower
  | false, true => some upper
  | false, false => none

/-- A place of the decimal notation at or above that of the leading digit of `num / den`. The number
is below two to the power that is multiplied here, the factor falls short of the logarithm of two to
the base ten by less than one in a hundred thousand, and the one that is added makes up for it. -/
def leadingPlace (num den : Nat) : Int :=
  (((num.log2 : Int) - (den.log2 : Int) + 1) * 1233).fdiv 4096 + 1

/-- The search from `place` downwards over at most `fuel` grids. -/
def RoundingInterval.search (i : RoundingInterval) (place : Int) : (fuel : Nat) → Option (Nat × Int)
  | 0 => none
  | fuel + 1 =>
    match i.onGrid? place with
    | some digits => some (digits, place)
    | none => i.search (place - 1) fuel

/-- The shortest decimal `digits * 10 ^ place` that reads back as `mantissa * 2 ^ exponent`, a
positive binary64 number. The value is itself a multiple of `10 ^ exponent` if the exponent is
negative and of `1` otherwise, so the search never goes below that place. -/
def shortest (mantissa : Nat) (exponent : Int) : Nat × Int :=
  let i := RoundingInterval.of mantissa exponent
  let top := leadingPlace i.mid i.den
  let bottom := min exponent 0
  (i.search top ((top - bottom).toNat + 1)).getD
    (mantissa <<< exponent.toNat * Nat.pow 5 (-exponent).toNat, bottom)

end CurveArea.Decimal
