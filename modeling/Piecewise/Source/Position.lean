/-!
# Places in sources

A place is a line, a column and the name of the file; lines and columns count characters from
one. A span runs from its start up to, and not including, its stop.
-/

namespace Piecewise

structure Source where
  name : String
  text : String
  deriving DecidableEq, Inhabited

/-- A line and a column, counted from one, in a named file. They have no bound here: texts are taken
to have fewer than `2 ^ 32` lines, and fewer than `2 ^ 32` characters in a line. -/
structure Position where
  line : Nat
  column : Nat
  file : String
  deriving DecidableEq, Inhabited

def Position.first (file : String) : Position := ⟨1, 1, file⟩

/-- The place after a character: only a newline starts a new line. -/
def Position.after (p : Position) (c : Char) : Position :=
  if c = '\n' then { p with line := p.line + 1, column := 1 }
  else { p with column := p.column + 1 }

def Position.afterAll (p : Position) (cs : List Char) : Position :=
  cs.foldl Position.after p

structure Span where
  start : Position
  stop : Position
  deriving DecidableEq, Inhabited

def Span.at (p : Position) : Span := ⟨p, p⟩

end Piecewise
