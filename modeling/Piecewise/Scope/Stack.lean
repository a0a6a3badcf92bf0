import Piecewise.Scope.Basic

/-!
# The scopes of a run

The global scope is always there. On it lie local scopes, the innermost first. The frame of a call
lies directly on the global scope: the scopes of its caller are set aside while it lasts, and come
back when it is left.
-/

namespace Piecewise

/-- The global scope and the local scopes on it. -/
structure Scopes where
  global : Scope
  /-- Innermost first. -/
  locals : List Scope

namespace Scopes

def empty : Scopes := ⟨.empty, []⟩

def depth (s : Scopes) : Nat := s.locals.length + 1

def current (s : Scopes) : Scope := s.locals.head?.getD s.global

/-- The scopes with the innermost one replaced. -/
def setCurrent (s : Scopes) (scope : Scope) : Scopes :=
  match s.locals with
  | [] => { s with global := scope }
  | _ :: outer => { s with locals := scope :: outer }

def push (s : Scopes) : Scopes := { s with locals := .empty :: s.locals }

def declare (s : Scopes) (symbol : Symbol) (place : Position) : Except Diagnostic Scopes :=
  (s.current.declare symbol place).map s.setCurrent

def declareGlobal (s : Scopes) (symbol : Symbol) (place : Position) :
    Except Diagnostic Scopes :=
  (s.global.declare symbol place).map fun scope => { s with global := scope }

/-- The symbol of a name in the innermost scope that has one. -/
def resolve? (s : Scopes) (name : String) : Option Symbol :=
  (s.locals ++ [s.global]).findSome? fun scope => scope.get? name

/-- The symbol of a name, whose absence is a fault. -/
def resolve (s : Scopes) (name : String) (place : Position) : Except Diagnostic Symbol :=
  match s.resolve? name with
  | some symbol => .ok symbol
  | none => .error ((Fault.unknownIdentifier name).at place)

/-- The frame of a call: an empty scope directly on the global one. The local scopes that it hides
are the first component. -/
def enterFrame (s : Scopes) : List Scope × Scopes := (s.locals, { s with locals := [.empty] })

/-- Back from a frame, to the local scopes that it hid. -/
def leaveFrame (s : Scopes) (hidden : List Scope) : Scopes := { s with locals := hidden }

/-- How many functions have no type yet. -/
def pending (s : Scopes) : Nat :=
  s.global.symbols.countP fun symbol => !symbol.type.isResolved

/-- The scopes in which every declaration of a program has its symbol, in order, and none has its
type yet. -/
def ofProgram (p : Program) : Except Diagnostic Scopes :=
  p.declarations.foldlM (fun scopes d => scopes.declareGlobal (.ofDeclaration d) d.span.start)
    .empty

end Scopes

end Piecewise
