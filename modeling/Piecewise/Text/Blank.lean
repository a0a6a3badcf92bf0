import Piecewise.Text.Ranges

/-!
# White space

The characters with the Unicode property White_Space. They separate tokens, and the end of a
printed source line is cut back over them.
-/

namespace Piecewise.Text

/-- The twenty-five code points with the property White_Space. -/
def blankRanges : List (Nat × Nat) :=
  [(0x09, 0x0D), (0x20, 0x20), (0x85, 0x85), (0xA0, 0xA0), (0x1680, 0x1680), (0x2000, 0x200A),
   (0x2028, 0x2029), (0x202F, 0x202F), (0x205F, 0x205F), (0x3000, 0x3000)]

def isBlank (c : Char) : Bool :=
  covers blankRanges c.toNat

/-- The text without the white space at its end. -/
def trimEnd (cs : List Char) : List Char :=
  (cs.reverse.dropWhile isBlank).reverse

end Piecewise.Text
