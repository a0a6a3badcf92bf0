/-!
# The exact value of a float

A finite 64-bit float is a sign and a magnitude `mantissa * 2 ^ exponent`. Printing and the
remainder are computed on that magnitude with unbounded naturals, where nothing is rounded.
-/

namespace Piecewise.Decimal

/-- The magnitude of a finite float, `mantissa * 2 ^ exponent`. -/
structure Binary where
  mantissa : Nat
  exponent : Int
  /-- The gap to the float below is half the gap to the float above. -/
  narrowBelow : Bool
  deriving DecidableEq

def leastExponent : Int := -1074

/-- The magnitude that the bits of a finite float stand for. -/
def Binary.ofBits (bits : UInt64) : Binary :=
  let scale := ((bits >>> 52) &&& 0x7FF).toNat
  let fraction := (bits &&& 0xFFFFFFFFFFFFF).toNat
  if scale = 0 then ⟨fraction, leastExponent, false⟩
  else ⟨Nat.pow 2 52 + fraction, (scale : Int) - 1075, fraction = 0 && scale > 1⟩

def isNegative (x : Float) : Bool :=
  x.toBits >>> 63 = 1

/-- The float `m * 2 ^ q`, for `m` below `2 ^ 53` and `q` at or above the least exponent: the
mantissa moves left until it has 53 bits or the least exponent is reached. -/
def ofMagnitude (negative : Bool) (m : Nat) (q : Int) : Float :=
  let shift := min (52 - m.log2) (q - leastExponent).toNat
  let mantissa := m <<< shift
  let magnitude :=
    if mantissa < Nat.pow 2 52 then mantissa
    else (q - shift + 1075).toNat * Nat.pow 2 52 + (mantissa - Nat.pow 2 52)
  Float.ofBits (UInt64.ofNat (if negative then magnitude + Nat.pow 2 63 else magnitude))

end Piecewise.Decimal
