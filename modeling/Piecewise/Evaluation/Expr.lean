import Piecewise.Evaluation.Basic
import Piecewise.Value.Arithmetic
import Piecewise.Value.Builtin
import Piecewise.Value.Equality

/-!
# Values of expressions and bodies

Operands and arguments are evaluated from left to right, both operands of `and` and `or` always. A
call finds its function first, then evaluates its arguments in the scopes of the caller, and runs
the body in a frame in which the parameters have the arguments as values. How a call is made once
its function and its arguments are known is a parameter here.
-/

namespace Piecewise.Evaluation

/-- The value of an expression, which must be a boolean. -/
def asBoolean (e : Expr) (value : Eval Value) : Eval Bool := do
  match ← value with
  | .boolean b => return b
  | other => fail (.wrongKind "bool" other.kindName) e.start

/-- The value of an expression, which must be a real. -/
def asReal (e : Expr) (value : Eval Value) : Eval Float := do
  match ← value with
  | .real x => return x
  | other => fail (.wrongKind "real" other.kindName) e.start

/-- The elements of the value of an expression, which must be a list. -/
def asList (e : Expr) (value : Eval Value) : Eval (List Value) := do
  match ← value with
  | .list _ elements => return elements
  | other => fail (.wrongKind "list" other.kindName) e.start

/-- The declaration that a call runs. -/
def calleeOf (callee : String) (place : Position) : Eval Declaration := do
  match (← resolve callee place).declaration? with
  | some d => return d
  | none => fail (.unboundFunction callee) place

/-- The value of a name: what is bound to it, or else the function that it names. -/
def valueOf (name : String) (place : Position) : Eval Value := do
  let symbol ← resolve name place
  match symbol.value, symbol.declaration? with
  | some value, _ => return value
  | none, some d => return .function d
  | none, none => fail (.unboundIdentifier name) place

/-- An argument. A name with nothing to evaluate to is passed as its type. -/
def argument (e : Expr) (value : Eval Value) : Eval Value := do
  match e with
  | .identifier span name =>
    let symbol ← resolve name span.start
    if symbol.isUnbound then return .type symbol.type else value
  | _ => value

/-- Parameters in the innermost scope, in order and without values. -/
def declareParameters : List Param → Eval Unit
  | [] => return ()
  | p :: rest => do
    let s ← get
    let scopes ← lift (s.scopes.declare (.parameter p.name p.type.toTy) p.span.start)
    set { s with scopes }
    declareParameters rest

/-- Parameters in the innermost scope, the symbols of which are then bound to the values. -/
def bindParameters (parameters : List Param) (values : List Value) : Eval Unit := do
  declareParameters parameters
  modify fun s => { s with scopes := s.scopes.setCurrent (s.scopes.current.bind values) }

def applyBuiltin (b : Builtin) (values : List Value) (place : Position) : Eval Value := do
  let s ← get
  let value ← lift (b.apply s.allocated values place)
  set { s with allocated := s.allocated + 1 }
  return value

/-- How a call is made: the name that is called and where, the function it stands for, and the
values of the arguments. -/
abbrev Call := String → Position → Declaration → List Value → Eval Value

/-- A call that runs a builtin, or the body of its function, in a frame of its own. -/
def callWith (run : Body → Eval Value) : Call := fun callee place d values => do
  modify fun s => { s with calls := callee :: s.calls }
  inFrame do
    bindParameters d.parameters values
    match Builtin.ofName? d.name with
    | some b => applyBuiltin b values place
    | none => run d.body

mutual

def evaluate (mode : ListEquality) (call : Call) : Expr → Eval Value
  | .boolean _ value => return .boolean value
  | .number _ value => return .real value
  | .text _ value => return .text value
  | .identifier span name => valueOf name span.start
  | .call span callee arguments => do
    let d ← calleeOf callee span.start
    let values ← evaluateArguments mode call arguments
    call callee span.start d values
  | .unary _ .not operand => do
    let b ← asBoolean operand (evaluate mode call operand)
    return .boolean (!b)
  | .unary _ .negate operand => do
    let x ← asReal operand (evaluate mode call operand)
    return .real (-x)
  | .binary span op left right =>
    match op with
    | .and => do
      let a ← asBoolean left (evaluate mode call left)
      let b ← asBoolean right (evaluate mode call right)
      return .boolean (a && b)
    | .or => do
      let a ← asBoolean left (evaluate mode call left)
      let b ← asBoolean right (evaluate mode call right)
      return .boolean (a || b)
    | .equals => do
      let a ← evaluate mode call left
      let b ← evaluate mode call right
      return .boolean (← lift (Value.equal mode span.start a b))
    | .concat => do
      let a ← asList left (evaluate mode call left)
      let b ← asList right (evaluate mode call right)
      newList (a ++ b)
    | .compare c => do
      let a ← asReal left (evaluate mode call left)
      let b ← asReal right (evaluate mode call right)
      return .boolean (c.holds a b)
    | .arithmetic op => do
      let a ← asReal left (evaluate mode call left)
      let b ← asReal right (evaluate mode call right)
      return .real (op.apply a b)
  | .conditional _ condition whenTrue whenFalse => do
    if ← asBoolean condition (evaluate mode call condition) then evaluate mode call whenTrue
    else evaluate mode call whenFalse
  | .list _ elements => do
    newList (← evaluateElements mode call elements)

/-- The values of the arguments of a call. -/
def evaluateArguments (mode : ListEquality) (call : Call) :
    List Expr → Eval (List Value)
  | [] => return []
  | e :: rest => do
    let value ← argument e (evaluate mode call e)
    return value :: (← evaluateArguments mode call rest)

def evaluateElements (mode : ListEquality) (call : Call) :
    List Expr → Eval (List Value)
  | [] => return []
  | e :: rest => do
    let value ← evaluate mode call e
    return value :: (← evaluateElements mode call rest)

end

/-- The first action whose guard holds, or the expression for the case that none does. -/
def evaluateBranches (mode : ListEquality) (call : Call) (otherwise : Expr) :
    List Branch → Eval Value
  | [] => evaluate mode call otherwise
  | branch :: rest => do
    if ← asBoolean branch.guard (evaluate mode call branch.guard) then
      evaluate mode call branch.action
    else evaluateBranches mode call otherwise rest

def evaluateBody (mode : ListEquality) (call : Call) : Body → Eval Value
  | .inline value => evaluate mode call value
  | .piecewise _ branches otherwise => evaluateBranches mode call otherwise branches

end Piecewise.Evaluation
