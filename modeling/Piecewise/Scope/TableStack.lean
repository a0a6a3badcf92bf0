import Piecewise.Scope.Table

/-!
# Stacks of tables

The scopes of a run with their indexes, in one array: the global table at the bottom, which is never
taken off, and the innermost table on top. Entering a frame takes the local tables off the stack,
and whoever enters the frame keeps them to leave it with.
-/

namespace Piecewise

/-- Tables from the global one to the innermost one. -/
structure TableStack where
  tables : Array Table
  size_pos : 0 < tables.size

namespace TableStack

def empty : TableStack := ⟨#[.empty], Nat.one_pos⟩

def global (s : TableStack) : Table :=
  have := s.size_pos
  s.tables[0]

def current (s : TableStack) : Table :=
  have := s.size_pos
  s.tables[s.tables.size - 1]

/-- The stack with the global table replaced. -/
def setGlobal (s : TableStack) (t : Table) : TableStack :=
  ⟨s.tables.set 0 t s.size_pos, by simpa using s.size_pos⟩

/-- The stack with the innermost table replaced. -/
def setCurrent (s : TableStack) (t : Table) : TableStack :=
  ⟨s.tables.set (s.tables.size - 1) t (Nat.sub_lt s.size_pos Nat.one_pos),
    by simpa using s.size_pos⟩

def push (s : TableStack) : TableStack := ⟨s.tables.push .empty, by simp⟩

def declare (s : TableStack) (symbol : Symbol) (place : Position) : Except Diagnostic TableStack :=
  (s.current.declare symbol place).map s.setCurrent

def declareGlobal (s : TableStack) (symbol : Symbol) (place : Position) :
    Except Diagnostic TableStack :=
  (s.global.declare symbol place).map s.setGlobal

/-- The symbol of a name in the innermost table that has one. -/
def resolve? (s : TableStack) (name : String) : Option Symbol :=
  s.tables.findSomeRev? fun t => t.get? name

/-- The symbol of a name, whose absence is a fault. -/
def resolve (s : TableStack) (name : String) (place : Position) : Except Diagnostic Symbol :=
  match s.resolve? name with
  | some symbol => .ok symbol
  | none => .error ((Fault.unknownIdentifier name).at place)

/-- The local tables taken off the stack, and an empty table put in their place. -/
def enterFrame (s : TableStack) : Array Table × TableStack :=
  (s.tables.drop 1, ⟨(s.tables.take 1).push .empty, by simp⟩)

/-- Every table but the global one dropped, and others put in their place. -/
def leaveFrame (s : TableStack) (hidden : Array Table) : TableStack :=
  ⟨s.tables.take 1 ++ hidden, by have := s.size_pos; simp; omega⟩

end TableStack

end Piecewise
