import Piecewise.Decimal.Remainder
import Piecewise.Expr.Operator

/-!
# Operations on numbers
-/

namespace Piecewise

/-- Whether a comparison holds. None holds of a real that is not a number. -/
def Comparison.holds : Comparison → Float → Float → Bool
  | less, a, b => a < b
  | lessEquals, a, b => a ≤ b
  | greater, a, b => a > b
  | greaterEquals, a, b => a ≥ b

def Arithmetic.apply : Arithmetic → Float → Float → Float
  | add, a, b => a + b
  | subtract, a, b => a - b
  | multiply, a, b => a * b
  | divide, a, b => a / b
  | modulo, a, b => Decimal.remainder a b
  | power, a, b => Float.pow a b

end Piecewise
