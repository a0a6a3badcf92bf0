import Piecewise.Decimal.Binary

/-!
# The remainder of two floats

The remainder has the sign of the dividend and a magnitude below that of the divisor, and it is
exact: both magnitudes are whole multiples of one power of two, so the remainder of the two
multiples is a float again and nothing is rounded.
-/

namespace Piecewise.Decimal

/-- What is left of `x` after taking away `y` a whole number of times, rounded toward zero. -/
def remainder (x y : Float) : Float :=
  if x.isNaN || y.isNaN || x.isInf || y == 0.0 then 0.0 / 0.0
  else if y.isInf then x
  else
    let a := Binary.ofBits x.toBits
    let b := Binary.ofBits y.toBits
    let unit := min a.exponent b.exponent
    let dividend := a.mantissa <<< (a.exponent - unit).toNat
    let divisor := b.mantissa <<< (b.exponent - unit).toNat
    ofMagnitude (isNegative x) (dividend % divisor) unit

end Piecewise.Decimal
