import Piecewise.Evaluation.Basic
import Piecewise.Value.Arithmetic
import Piecewise.Value.Builtin
import Piecewise.Value.Equality

/-!
# An interpreter without scopes

The meaning of programs by static scoping alone. An expression is evaluated in an environment that
holds the parameters of the function it stands in and nothing else; every other name is looked up
among the declarations of the program. No scope is entered or left: a call evaluates the body of
its callee in an environment made from the values of the arguments, and the environment of the
caller is simply still there afterwards. What a run changes are two counters.
-/

namespace Piecewise

namespace Stackless

open Evaluation (Halt)

/-- A parameter of the function that runs. It has no value if none was passed, or a function. -/
structure Binding where
  name : String
  type : Ty
  value : Option Value

/-- The values that parameters are bound to: a function is never bound. -/
def bindable? : Value → Option Value
  | .function _ => none
  | v => some v

/-- The parameters of a function paired with values by position. -/
def bindings : List Param → List Value → List Binding
  | [], _ => []
  | q :: rest, [] => ⟨q.name, q.type.toTy, none⟩ :: bindings rest []
  | q :: rest, v :: values => ⟨q.name, q.type.toTy, bindable? v⟩ :: bindings rest values

inductive Found
  | parameter (b : Binding)
  | function (d : Declaration)

/-- A name is a parameter, or else a function of the program. -/
def lookup (p : Program) (env : List Binding) (name : String) (place : Position) :
    Except Diagnostic Found :=
  match env.find? fun b => b.name = name with
  | some b => .ok (.parameter b)
  | none =>
    match p.find? name with
    | some d => .ok (.function d)
    | none => .error ((Fault.unknownIdentifier name).at place)

/-- How often each name was called, and the next allocation. -/
structure Counters where
  calls : String → Nat
  allocated : Nat

def Counters.initial : Counters := ⟨fun _ => 0, 0⟩

abbrev Run := EStateM Halt Counters

/-- The outcome of a computation that counts nothing. -/
def lift {α : Type} : Except Diagnostic α → Run α
  | .ok a => pure a
  | .error d => throw (.fault d)

def count (callee : String) : Run Unit :=
  modify fun c => { c with calls := fun name => c.calls name + if name = callee then 1 else 0 }

/-- The next allocation, which is then taken. -/
def allocate : Run Nat := do
  let c ← get
  set { c with allocated := c.allocated + 1 }
  return c.allocated

def toBoolean (e : Expr) : Value → Except Diagnostic Bool
  | .boolean b => .ok b
  | other => .error ((Fault.wrongKind "bool" other.kindName).at e.start)

def toReal (e : Expr) : Value → Except Diagnostic Float
  | .real x => .ok x
  | other => .error ((Fault.wrongKind "real" other.kindName).at e.start)

def toElements (e : Expr) : Value → Except Diagnostic (List Value)
  | .list _ elements => .ok elements
  | other => .error ((Fault.wrongKind "list" other.kindName).at e.start)

/-- The function that a call runs. A parameter stands for none. -/
def toFunction (callee : String) (place : Position) : Found → Except Diagnostic Declaration
  | .function d => .ok d
  | .parameter _ => .error ((Fault.unboundFunction callee).at place)

def toValue (name : String) (place : Position) : Found → Except Diagnostic Value
  | .function d => .ok (.function d)
  | .parameter ⟨_, _, some v⟩ => .ok v
  | .parameter ⟨_, _, none⟩ => .error ((Fault.unboundIdentifier name).at place)

/-- What is passed for a name that stands alone as an argument: for a parameter without a value
the type that it is declared with. -/
def toArgument : Found → Value
  | .function d => .function d
  | .parameter ⟨_, _, some v⟩ => v
  | .parameter ⟨_, type, none⟩ => .type type

/-- An operator on two operands, given what these evaluate to. The left operand is checked before
the right one is evaluated. -/
def applyBinary (mode : ListEquality) (place : Position) (op : BinaryOp) (left right : Expr)
    (first second : Run Value) : Run Value :=
  match op with
  | .and => do
    let a ← lift (toBoolean left (← first))
    let b ← lift (toBoolean right (← second))
    return .boolean (a && b)
  | .or => do
    let a ← lift (toBoolean left (← first))
    let b ← lift (toBoolean right (← second))
    return .boolean (a || b)
  | .equals => do
    let a ← first
    let b ← second
    return .boolean (← lift (Value.equal mode place a b))
  | .concat => do
    let a ← lift (toElements left (← first))
    let b ← lift (toElements right (← second))
    return .list (← allocate) (a ++ b)
  | .compare c => do
    let a ← lift (toReal left (← first))
    let b ← lift (toReal right (← second))
    return .boolean (c.holds a b)
  | .arithmetic op => do
    let a ← lift (toReal left (← first))
    let b ← lift (toReal right (← second))
    return .real (op.apply a b)

/-- How a function is called: by which name, from where, and with which values. -/
abbrev Invoke := String → Position → Declaration → List Value → Run Value

section Expressions

variable (p : Program) (mode : ListEquality) (invoke : Invoke) (env : List Binding)

mutual

def evaluate : Expr → Run Value
  | .boolean _ b => return .boolean b
  | .number _ x => return .real x
  | .text _ s => return .text s
  | .identifier span name => do
    lift (toValue name span.start (← lift (lookup p env name span.start)))
  | .call span callee arguments => do
    let d ← lift (toFunction callee span.start (← lift (lookup p env callee span.start)))
    invoke callee span.start d (← evaluateArguments arguments)
  | .unary _ .not operand => do
    return .boolean !(← lift (toBoolean operand (← evaluate operand)))
  | .unary _ .negate operand => do
    return .real (-(← lift (toReal operand (← evaluate operand))))
  | .binary span op left right =>
    applyBinary mode span.start op left right (evaluate left) (evaluate right)
  | .conditional _ condition whenTrue whenFalse => do
    if ← lift (toBoolean condition (← evaluate condition)) then evaluate whenTrue
    else evaluate whenFalse
  | .list _ elements => do
    let values ← evaluateElements elements
    return .list (← allocate) values

def evaluateArguments : List Expr → Run (List Value)
  | [] => return []
  | .identifier span name :: rest => do
    let value := toArgument (← lift (lookup p env name span.start))
    return value :: (← evaluateArguments rest)
  | e :: rest => do
    let value ← evaluate e
    return value :: (← evaluateArguments rest)

def evaluateElements : List Expr → Run (List Value)
  | [] => return []
  | e :: rest => do
    let value ← evaluate e
    return value :: (← evaluateElements rest)

end

/-- The first action whose guard holds, or the expression for the case that none does. -/
def evaluateBranches (otherwise : Expr) : List Branch → Run Value
  | [] => evaluate p mode invoke env otherwise
  | ⟨guard, action, _⟩ :: rest => do
    if ← lift (toBoolean guard (← evaluate p mode invoke env guard)) then
      evaluate p mode invoke env action
    else evaluateBranches otherwise rest

def evaluateBody : Body → Run Value
  | .inline value => evaluate p mode invoke env value
  | .piecewise _ branches otherwise => evaluateBranches p mode invoke env otherwise branches

end Expressions

/-- A builtin on the values of a call, with an allocation for its result. -/
def runBuiltin (b : Builtin) (values : List Value) (place : Position) : Run Value := do
  let value ← lift (b.apply (← get).allocated values place)
  let _ ← allocate
  return value

/-- The value of a body in an environment, where calls nest less deeply than the depth. A call is
counted, and then runs a builtin or the body of its function with the values of the arguments as
environment. -/
def runBody (p : Program) (mode : ListEquality) : Nat → List Binding → Body → Run Value
  | 0, _, _ => throw .tooDeep
  | depth + 1, env, body =>
    let invoke : Invoke := fun callee place d values => do
      count callee
      match Builtin.ofName? d.name with
      | some b => runBuiltin b values place
      | none => runBody p mode depth (bindings d.parameters values) d.body
    evaluateBody p mode invoke env body

/-- The value of an entry function, whose parameters have no values. -/
def runEntry (p : Program) (mode : ListEquality) (depth : Nat) (d : Declaration) : Run Value :=
  runBody p mode depth (bindings d.parameters []) d.body

end Stackless

end Piecewise
