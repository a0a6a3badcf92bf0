import Piecewise.Expr.Operator
import Piecewise.Source.Position

/-!
# Expressions

Every expression knows the span it was written in. Parentheses leave no trace: they neither make
an expression of their own nor widen the span of the one inside.
-/

namespace Piecewise

/-- An expression. Only named functions can be called. -/
inductive Expr
  | boolean (span : Span) (value : Bool)
  | number (span : Span) (value : Float)
  | text (span : Span) (value : String)
  | identifier (span : Span) (name : String)
  | call (span : Span) (callee : String) (arguments : List Expr)
  | unary (span : Span) (op : UnaryOp) (operand : Expr)
  | binary (span : Span) (op : BinaryOp) (left right : Expr)
  | conditional (span : Span) (condition whenTrue whenFalse : Expr)
  | list (span : Span) (elements : List Expr)

namespace Expr

def span : Expr → Span
  | boolean span _ => span
  | number span _ => span
  | text span _ => span
  | identifier span _ => span
  | call span _ _ => span
  | unary span _ _ => span
  | binary span _ _ _ => span
  | conditional span _ _ _ => span
  | list span _ => span

def start (e : Expr) : Position := e.span.start

/-- An operator between two expressions spans from the first to the second. -/
def between (op : BinaryOp) (left right : Expr) : Expr :=
  binary ⟨left.span.start, right.span.stop⟩ op left right

end Expr

end Piecewise
