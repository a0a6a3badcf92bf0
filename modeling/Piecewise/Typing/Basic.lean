import Piecewise.Scope.Stack
import Piecewise.Ty.Agreement

/-!
# What the checker keeps

The checker works on the scopes of a program and keeps a record of the functions whose bodies it
has visited. A step that fails leaves both as the failure left them, except that a frame is always
left again.
-/

namespace Piecewise.Typing

/-- The scopes, and the functions visited so far, the latest first. -/
structure State where
  scopes : Scopes
  visited : List String

def State.initial (scopes : Scopes) : State := ⟨scopes, []⟩

def State.visits (s : State) (name : String) : Nat := s.visited.count name

abbrev Check := EStateM Diagnostic State

/-- The outcome of a computation that changes nothing. -/
def lift {α : Type} : Except Diagnostic α → Check α
  | .ok a => pure a
  | .error d => throw d

def resolve (name : String) (place : Position) : Check Symbol := do
  lift ((← get).scopes.resolve name place)

/-- A step in a frame of its own, left again however the step ends. -/
def inFrame {α : Type} (step : Check α) : Check α := fun s =>
  let (hidden, scopes) := s.scopes.enterFrame
  match step { s with scopes } with
  | .ok a t => .ok a { t with scopes := t.scopes.leaveFrame hidden }
  | .error d t => .error d { t with scopes := t.scopes.leaveFrame hidden }

/-- The diagnostic that a type is not the one asked for. -/
def mismatch (expected received : Ty) (place : Position) : Diagnostic :=
  (Fault.typeMismatch expected.shown received.shown).at place

end Piecewise.Typing
