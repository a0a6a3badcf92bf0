/-!
# Lines of a text

A line ends at a newline, or at a carriage return that stands directly before one. What follows
the last newline is a line too, unless it is empty.
-/

namespace Piecewise.Text

/-- The lines of a text, without their endings. -/
def lines : List Char → List (List Char)
  | [] => []
  | '\n' :: rest => [] :: lines rest
  | '\r' :: '\n' :: rest => [] :: lines rest
  | c :: rest =>
    match lines rest with
    | [] => [[c]]
    | line :: more => (c :: line) :: more

/-- The line with the given number, counted from one. -/
def line? (text : String) : Nat → Option (List Char)
  | 0 => none
  | n + 1 => (lines text.toList)[n]?

end Piecewise.Text
