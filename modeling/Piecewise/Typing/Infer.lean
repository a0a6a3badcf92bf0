import Piecewise.Typing.Basic

/-!
# Types of expressions and bodies

Every expression has the type that its form and the types of its parts give it. Arguments of a
call and operands of `==` are compared by their outermost shape only; branches and list elements
must agree in depth, and have the join of their types. A call of a function whose type is still
unresolved visits that function first; how is a parameter here.
-/

namespace Piecewise.Typing

def expecting (expected : Ty) (e : Expr) (found : Check Ty) : Check Unit := do
  let received ← found
  if received.sameKind expected then return ()
  else throw (mismatch expected received e.start)

/-- Two types joined, where the second is found at the place. -/
def joinAt (a b : Ty) (place : Position) : Except Diagnostic Ty :=
  match a.join b with
  | some type => .ok type
  | none => .error (mismatch a b place)

/-- The function of a symbol visited, if its type is still unresolved. -/
def visitSymbol (visit : Declaration → Check Unit) (symbol : Symbol) : Check Unit :=
  if symbol.type.isResolved then return ()
  else
    match symbol.declaration? with
    | some d => visit d
    | none => return ()

/-- The inputs and the output of a function to be called. -/
def calleeType (visit : Declaration → Check Unit) (callee : String) (place : Position) :
    Check (List (Parameter Ty) × Ty) := do
  visitSymbol visit (← resolve callee place)
  match (← resolve callee place).type with
  | .function inputs output => return (inputs, output)
  | other => throw ((Fault.typeMismatch "function" other.shown).at place)

/-- Whether arguments have the kinds of the parameters, counted from an index. -/
def checkKinds (callee : String) :
    Nat → List (Parameter Ty) → List (Ty × Position) → Except Diagnostic Unit
  | index, input :: inputs, (received, place) :: arguments =>
    if input.type.sameKind received then checkKinds callee (index + 1) inputs arguments
    else
      .error ((Fault.argumentMismatch callee index input.type.shown received.shown).at place)
  | _, _, _ => .ok ()

/-- Whether a call has as many arguments as parameters, and of their kinds. -/
def checkArguments (callee : String) (place : Position) (inputs : List (Parameter Ty))
    (arguments : List (Ty × Position)) : Except Diagnostic Unit :=
  if arguments.length = inputs.length then checkKinds callee 0 inputs arguments
  else .error ((Fault.arityMismatch callee inputs.length arguments.length).at place)

mutual

def infer (visit : Declaration → Check Unit) : Expr → Check Ty
  | .boolean _ _ => return .boolean
  | .number _ _ => return .real
  | .text _ _ => return .text
  | .identifier span name => return (← resolve name span.start).type
  | .call span callee arguments => do
    let (inputs, output) ← calleeType visit callee span.start
    let received ← inferAll visit arguments
    lift (checkArguments callee span.start inputs received)
    return output
  | .unary _ .not operand => do
    expecting .boolean operand (infer visit operand)
    return .boolean
  | .unary _ .negate operand => do
    expecting .real operand (infer visit operand)
    return .real
  | .binary _ op left right =>
    match op with
    | .or | .and => do
      expecting .boolean left (infer visit left)
      expecting .boolean right (infer visit right)
      return .boolean
    | .arithmetic _ => do
      expecting .real left (infer visit left)
      expecting .real right (infer visit right)
      return .real
    | .compare _ => do
      expecting .real left (infer visit left)
      expecting .real right (infer visit right)
      return .boolean
    | .equals => do
      let a ← infer visit left
      let b ← infer visit right
      if a.sameKind b then return .boolean else throw (mismatch a b right.start)
    | .concat => do
      let a ← infer visit left
      if a.element?.isNone then throw (mismatch (.list .unresolved) a left.start)
      let b ← infer visit right
      match a.joinLists b with
      | some type => return type
      | none => throw (mismatch a b right.start)
  | .conditional _ condition whenTrue whenFalse => do
    expecting .boolean condition (infer visit condition)
    let a ← infer visit whenTrue
    let b ← infer visit whenFalse
    lift (joinAt a b whenFalse.start)
  | .list _ [] => return .list .unresolved
  | .list _ (first :: rest) => do
    let type ← infer visit first
    return .list (← inferJoined visit type rest)

/-- The types of the arguments of a call, with their places. -/
def inferAll (visit : Declaration → Check Unit) : List Expr → Check (List (Ty × Position))
  | [] => return []
  | e :: rest => do
    let type ← infer visit e
    return (type, e.start) :: (← inferAll visit rest)

/-- The join of a type with the types of list elements. -/
def inferJoined (visit : Declaration → Check Unit) (type : Ty) : List Expr → Check Ty
  | [] => return type
  | e :: rest => do
    let received ← infer visit e
    let joined ← lift (joinAt type received e.start)
    inferJoined visit joined rest

end

/-- The types of the actions of guarded branches, with their places. -/
def inferBranches (visit : Declaration → Check Unit) :
    List Branch → Check (List (Ty × Position))
  | [] => return []
  | branch :: rest => do
    expecting .boolean branch.guard (infer visit branch.guard)
    let type ← infer visit branch.action
    return (type, branch.action.start) :: (← inferBranches visit rest)

/-- The join of a type with further types, each found at its place. -/
def joinAll (type : Ty) : List (Ty × Position) → Except Diagnostic Ty
  | [] => .ok type
  | (next, place) :: rest => do joinAll (← joinAt type next place) rest

/-- The type of a body. All branches are typed before any two are compared. -/
def inferBody (visit : Declaration → Check Unit) : Body → Check Ty
  | .inline value => infer visit value
  | .piecewise _ branches otherwise => do
    let guarded ← inferBranches visit branches
    let last ← infer visit otherwise
    match guarded with
    | [] => return last
    | (first, _) :: rest => lift (joinAll first (rest ++ [(last, otherwise.start)]))

end Piecewise.Typing
