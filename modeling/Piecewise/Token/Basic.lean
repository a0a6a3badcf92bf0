import Piecewise.Source.Position
import Piecewise.Token.Kind

/-!
# Tokens

A token carries its kind, its value and its place. The value of a text token is the text that the
literal stands for; for every other token it is the spelling.
-/

namespace Piecewise

structure Token where
  kind : TokenKind
  value : String
  span : Span
  deriving DecidableEq, Inhabited

def Token.eofAt (p : Position) : Token := ⟨.eof, "EOF", .at p⟩

def Token.shown (t : Token) : String :=
  "Token \x7b\nkind: " ++ t.kind.name ++ ",\nvalue: " ++ t.value ++ "\x7d"

end Piecewise
