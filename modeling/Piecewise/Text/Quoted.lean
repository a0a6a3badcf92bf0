import Piecewise.Text.Hidden

/-!
# Quoted text

How a message quotes a text: between double quotes, with a backslash before a quote or a
backslash, letters for the common controls, and a number for every other character that a reader
could not see.
-/

namespace Piecewise.Text

/-- One character as it stands between the quotes. -/
def escape (c : Char) : List Char :=
  match c with
  | '"' => ['\\', '"']
  | '\\' => ['\\', '\\']
  | '\n' => ['\\', 'n']
  | '\r' => ['\\', 'r']
  | '\t' => ['\\', 't']
  | '\x00' => ['\\', '0']
  | c =>
    if isHidden c then ['\\', 'u', '\x7b'] ++ Nat.toDigits 16 c.toNat ++ ['\x7d'] else [c]

/-- The text between double quotes, escaped character by character. -/
def quoted (text : String) : String :=
  String.ofList ('"' :: (text.toList.flatMap escape ++ ['"']))

end Piecewise.Text
