/-!
# Degrees

The exponent of a power of `x`. Degrees have 32 bits, and the largest one has no successor, which is
why integration can fail.
-/

namespace CurveArea

/-- The degree of a term. -/
abbrev Degree := UInt32

namespace Degree

/-- The largest degree. -/
def max : Degree := 4294967295

/-- The degree that a natural number names, if it has 32 bits. -/
def ofNat? (n : Nat) : Option Degree :=
  if n ≤ max.toNat then some (UInt32.ofNat n) else none

/-- The degree one higher. -/
def succ? (d : Degree) : Option Degree :=
  if d = max then none else some (d + 1)

end Degree

end CurveArea
