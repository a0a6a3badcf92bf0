/-!
# Ranges of code points

Sets of characters are kept as closed ranges in ascending order, so a look-up can stop at the
first range that starts beyond the character.
-/

namespace Piecewise.Text

/-- Whether one of the ascending ranges holds the code point. -/
def covers : List (Nat × Nat) → Nat → Bool
  | [], _ => false
  | (low, high) :: rest, n => low ≤ n && (n ≤ high || covers rest n)

end Piecewise.Text
