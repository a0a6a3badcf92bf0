import Piecewise.Scope.Stack

/-!
# What a run keeps

A run works on the scopes of a program, counts its calls by the name that was called, and gives
every new list an allocation that no list before it has. Calls may nest without end, so a run is
given a depth: going beyond it is neither a value nor a fault.
-/

namespace Piecewise.Evaluation

/-- The scopes, the names called so far with the latest first, and the next allocation. -/
structure State where
  scopes : Scopes
  calls : List String
  allocated : Nat

def State.initial (scopes : Scopes) : State := ⟨scopes, [], 0⟩

def State.callCount (s : State) (name : String) : Nat := s.calls.count name

/-- Why a run has no value. -/
inductive Halt
  /-- Something is wrong. -/
  | fault (d : Diagnostic)
  /-- Calls nest more deeply than allowed. -/
  | tooDeep
  deriving DecidableEq

abbrev Eval := EStateM Halt State

def fail {α : Type} (fault : Fault) (place : Position) : Eval α :=
  throw (.fault (fault.at place))

/-- The outcome of a computation that changes nothing. -/
def lift {α : Type} : Except Diagnostic α → Eval α
  | .ok a => pure a
  | .error d => throw (.fault d)

def resolve (name : String) (place : Position) : Eval Symbol := do
  lift ((← get).scopes.resolve name place)

/-- A list with an allocation of its own. -/
def newList (elements : List Value) : Eval Value := do
  let s ← get
  set { s with allocated := s.allocated + 1 }
  return .list s.allocated elements

/-- A step in a frame of its own, left again however the step ends. -/
def inFrame {α : Type} (step : Eval α) : Eval α := fun s =>
  let (hidden, scopes) := s.scopes.enterFrame
  match step { s with scopes } with
  | .ok a t => .ok a { t with scopes := t.scopes.leaveFrame hidden }
  | .error h t => .error h { t with scopes := t.scopes.leaveFrame hidden }

end Piecewise.Evaluation
