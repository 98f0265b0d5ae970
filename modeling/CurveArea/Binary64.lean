/-!
# Binary64 numbers and exact fractions

A finite binary64 number is a natural number times a power of two, with a sign. `value` takes a
`Float` apart into these, and `nearest` goes the other way: it gives the binary64 number nearest to
a fraction of natural numbers, halfway cases going to the even neighbour. Both work on exact `Nat`
arithmetic, so reading and writing numbers rests on no rounding but the one stated here.
-/

namespace CurveArea.Binary64

/-- What a binary64 number stands for: `finite s m q` is `m * 2 ^ q`, negated if `s`. -/
inductive Value
  | nan
  | infinite (negative : Bool)
  | finite (negative : Bool) (mantissa : Nat) (exponent : Int)
  deriving DecidableEq, Repr

/-- The weight of the sign bit, `2 ^ 63`. -/
def signBit : Nat := 0x8000000000000000

/-- The weight of the leading bit of a normal mantissa, which is not stored: `2 ^ 52`. -/
def leadingBit : Nat := 0x10000000000000

/-- The exponent of the smallest positive binary64 number. -/
def minExponent : Int := -1074

/-- The bits of positive infinity; the bits of a positive number grow with the number up to here. -/
def infinityBits : Nat := 0x7FF0000000000000

/-- The parts of a number: a biased exponent of 0 marks the subnormal numbers, one of 2047 the
infinities and NaN, and any other a number whose leading bit is not stored. -/
def value (x : Float) : Value :=
  let bits := x.toBits.toNat
  let negative := decide (signBit ≤ bits)
  let biased : Nat := bits % signBit / leadingBit
  let fraction : Nat := bits % leadingBit
  if biased = 2047 then
    if fraction = 0 then .infinite negative else .nan
  else if biased = 0 then .finite negative fraction minExponent
  else .finite negative (leadingBit + fraction) ((biased : Int) - 1075)

/-- The integer nearest to `num / den`, a half going to the even neighbour. -/
def roundHalfEven (num den : Nat) : Nat :=
  let quotient := num / den
  let remainder := num % den
  if 2 * remainder < den then quotient
  else if den < 2 * remainder then quotient + 1
  else quotient + quotient % 2

/-- The exponent of the last place that binary64 keeps of the positive fraction `num / den`: the
leading bit has 52 more places below it, unless the number is subnormal. -/
def lastPlace (num den : Nat) : Int :=
  let e : Int := (num.log2 : Int) - (den.log2 : Int)
  let leading := if den <<< e.toNat ≤ num <<< (-e).toNat then e else e - 1
  max (leading - 52) minExponent

/-- Bits up to those of infinity are the bits of a number: the pattern of NaN lies beyond. -/
theorem valid_of_le_infinityBits {bits : Nat} (h : bits ≤ infinityBits) :
    Float.Model.Format.binary64.Valid (UInt64.ofNat bits).toBitVec := by
  have hlt : bits < 0x10000000000000000 := Nat.lt_of_le_of_lt h (by decide)
  have hle : bits ≤ 0x7FF0000000000000 := h
  refine ⟨fun hexponent hmantissa => absurd ?_ hmantissa⟩
  have hexponent := congrArg BitVec.toNat hexponent
  apply BitVec.eq_of_toNat_eq
  simp [Float.Model.UnpackedFloat.unpackExponent, Float.Model.UnpackedFloat.unpackMantissa,
    BitVec.extractLsb, BitVec.extractLsb', Nat.shiftRight_eq_div_pow] at hexponent ⊢
  omega

/-- The number with given bits and no sign; bits past those of infinity give infinity. -/
def ofBits (bits : Nat) : Float :=
  ⟨⟨UInt64.ofNat (min bits infinityBits), valid_of_le_infinityBits (Nat.min_le_right ..)⟩⟩

/-- The binary64 number nearest to `num / den`. The bits are one sum: the leading bit of a normal
mantissa, or the carry of one that rounds up, raises the biased exponent by itself. -/
def nearest (num den : Nat) : Float :=
  if num = 0 then ofBits 0
  else
    let q := lastPlace num den
    let mantissa := roundHalfEven (num <<< (-q).toNat) (den <<< q.toNat)
    ofBits ((q - minExponent).toNat * leadingBit + mantissa)

/-- Positive infinity. -/
def infinity : Float := ofBits infinityBits

/-- The number that is not a number; it has one form and no sign. -/
def notANumber : Float := Float.ofBits 0x7FF8000000000000

end CurveArea.Binary64
