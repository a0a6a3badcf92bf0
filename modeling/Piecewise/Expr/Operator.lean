import Piecewise.Token.Kind

/-!
# Operators

Operators between two operands come in kinds that are typed and evaluated alike: the logical ones,
`==`, comparisons of numbers, `++` for lists, and arithmetic.
-/

namespace Piecewise

inductive UnaryOp
  | negate
  | not
  deriving DecidableEq

inductive Comparison
  | less
  | lessEquals
  | greater
  | greaterEquals
  deriving DecidableEq

inductive Arithmetic
  | add
  | subtract
  | multiply
  | divide
  | modulo
  | power
  deriving DecidableEq

inductive BinaryOp
  | or
  | and
  | equals
  | compare (c : Comparison)
  | concat
  | arithmetic (a : Arithmetic)
  deriving DecidableEq

namespace BinaryOp

def kind : BinaryOp → TokenKind
  | or => .orWord
  | and => .andWord
  | equals => .equals
  | compare .less => .less
  | compare .lessEquals => .lessEquals
  | compare .greater => .greater
  | compare .greaterEquals => .greaterEquals
  | concat => .plusPlus
  | arithmetic .add => .plus
  | arithmetic .subtract => .dash
  | arithmetic .multiply => .star
  | arithmetic .divide => .slash
  | arithmetic .modulo => .percent
  | arithmetic .power => .caret

/-- The operator that a kind of token writes. -/
def ofKind? : TokenKind → Option BinaryOp
  | .orWord => some or
  | .andWord => some and
  | .equals => some equals
  | .less => some (compare .less)
  | .lessEquals => some (compare .lessEquals)
  | .greater => some (compare .greater)
  | .greaterEquals => some (compare .greaterEquals)
  | .plusPlus => some concat
  | .plus => some (arithmetic .add)
  | .dash => some (arithmetic .subtract)
  | .star => some (arithmetic .multiply)
  | .slash => some (arithmetic .divide)
  | .percent => some (arithmetic .modulo)
  | .caret => some (arithmetic .power)
  | _ => none

def symbol : BinaryOp → String
  | or => "or"
  | and => "and"
  | equals => "=="
  | compare .less => "<"
  | compare .lessEquals => "<="
  | compare .greater => ">"
  | compare .greaterEquals => ">="
  | concat => "++"
  | arithmetic .add => "+"
  | arithmetic .subtract => "-"
  | arithmetic .multiply => "*"
  | arithmetic .divide => "/"
  | arithmetic .modulo => "%"
  | arithmetic .power => "^"

end BinaryOp

end Piecewise
