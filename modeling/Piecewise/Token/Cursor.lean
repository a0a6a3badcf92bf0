import Piecewise.Source.Position

/-!
# A cursor in a source

The part of a source that is still to be read, with its place.
-/

namespace Piecewise

/-- What is left of a source, and where it starts. -/
structure Cursor where
  position : Position
  rest : List Char
  deriving DecidableEq

namespace Cursor

def start (source : Source) : Cursor :=
  ⟨.first source.name, source.text.toList⟩

def atEnd (c : Cursor) : Bool := c.rest.isEmpty

/-- The span of a text that starts here: it stops on the line where it starts, after as many
columns as the text has characters, even when the text holds newlines. -/
def spanOf (c : Cursor) (taken : List Char) : Span :=
  ⟨c.position, { c.position with column := c.position.column + taken.length }⟩

/-- Past the characters taken, with the rest given. -/
def past (c : Cursor) (taken rest : List Char) : Cursor :=
  ⟨c.position.afterAll taken, rest⟩

/-- The characters that fill a number of bytes, and what follows them. -/
def splitBytes : Nat → List Char → List Char × List Char
  | _, [] => ([], [])
  | bytes, c :: rest =>
    if bytes = 0 then ([], c :: rest)
    else
      let (taken, left) := splitBytes (bytes - c.utf8Size) rest
      (c :: taken, left)

/-- Past a number of bytes. -/
def advance (c : Cursor) (bytes : Nat) : Cursor :=
  let (taken, rest) := splitBytes bytes c.rest
  c.past taken rest

end Cursor

end Piecewise
