import Piecewise.Evaluation.Expr

/-!
# Running programs

A body is run with a depth, which every call inside lowers by one. An answer that is reached at some
depth is reached at every greater depth; without a depth that suffices there is no answer.
-/

namespace Piecewise.Evaluation

/-- The value of a body in which calls nest less deeply than the depth. -/
def runBody (mode : ListEquality) : Nat → Body → Eval Value
  | 0, _ => throw .tooDeep
  | depth + 1, body => evaluateBody mode (callWith (runBody mode depth)) body

/-- The value of an expression in which calls nest at most as deeply as the depth. -/
def runExpr (mode : ListEquality) (depth : Nat) (e : Expr) : Eval Value :=
  evaluate mode (callWith (runBody mode depth)) e

/-- The value of an entry function: its body in a frame in which its parameters have no values. -/
def runEntry (mode : ListEquality) (depth : Nat) (d : Declaration) : Eval Value :=
  inFrame do
    bindParameters d.parameters []
    runBody mode depth d.body

end Piecewise.Evaluation
