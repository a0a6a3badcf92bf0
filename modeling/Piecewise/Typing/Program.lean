import Piecewise.Typing.Infer

/-!
# Checking programs

A function is visited when it is first needed, from a call or from the walk over the program, and
its type is written down before its body is looked at. So a function that calls itself, directly
or through others, finds its own type, and no body is visited twice. Each visit leaves one function
less without a type: their number bounds how deeply visits nest.
-/

namespace Piecewise.Typing

/-- What to do for a function whose type is still unresolved; nothing is done for others. -/
def unlessResolved (d : Declaration) (visit : Check Unit) : Check Unit := do
  match (← get).scopes.global.get? d.name with
  | none => throw ((Fault.unknownIdentifier d.name).at d.span.start)
  | some symbol => if symbol.type.isResolved then return () else visit

/-- Parameters in the innermost scope, in order. -/
def declareParameters : List Param → Check Unit
  | [] => return ()
  | p :: rest => do
    let s ← get
    let scopes ← lift (s.scopes.declare (.parameter p.name p.type.toTy) p.span.start)
    set { s with scopes }
    declareParameters rest

/-- A function given its type, and counted as visited. -/
def assign (d : Declaration) (type : Ty) : Check Unit :=
  modify fun s =>
    { scopes :=
        { s.scopes with
          global := s.scopes.global.modify d.name fun symbol => { symbol with type } }
      visited := d.name :: s.visited }

/-- The type of a function written down in its frame, the symbols of which are its parameters. -/
def record (d : Declaration) : Check Unit := do
  assign d (.function (← get).scopes.current.parameters d.output)

/-- A function in its frame: its parameters, its type, and a body that agrees with it. -/
def visitBody (visit : Declaration → Check Unit) (d : Declaration) : Check Unit := do
  declareParameters d.parameters
  record d
  let received ← inferBody visit d.body
  if received.agrees d.output then return ()
  else throw (mismatch d.output received d.body.span.start)

/-- A function visited where at most the given number of functions are without a type. With none
of them left there is nothing to visit. -/
def visitWithin : Nat → Declaration → Check Unit
  | 0, d => unlessResolved d (return ())
  | n + 1, d => unlessResolved d (inFrame (visitBody (visitWithin n) d))

def visit (d : Declaration) : Check Unit := do
  visitWithin (← get).scopes.pending d

/-- The type of an expression in the innermost scope. -/
def typeOf (e : Expr) : Check Ty := do
  infer (visitWithin (← get).scopes.pending) e

/-- The type of a body in the innermost scope. -/
def typeOfBody (body : Body) : Check Ty := do
  inferBody (visitWithin (← get).scopes.pending) body

def visitAll : List Declaration → Check Unit
  | [] => return ()
  | d :: rest => do
    visit d
    visitAll rest

def checkProgram (p : Program) : Check Unit := visitAll p.declarations

end Piecewise.Typing
