import Piecewise.Diagnostic.Basic
import Piecewise.Token.Basic
import Piecewise.Token.Cursor
import Piecewise.Token.Lexeme

/-!
# Cutting a source into tokens

A source is cut from the front, one lexeme at a time, until nothing is left or no class of lexeme
takes anything. Every lexeme takes at least one character, so a source has no more lexemes than
characters.
-/

namespace Piecewise

/-- The tokens from a cursor on, for a rest of at most the given number of characters. -/
def Cursor.tokensWithin : Nat → Cursor → Except Diagnostic (List Token)
  | 0, cursor => .ok [.eofAt cursor.position]
  | n + 1, cursor =>
    match cursor.rest with
    | [] => .ok [.eofAt cursor.position]
    | c :: _ =>
      match Lexeme.first? cursor.rest with
      | none => .error ((Fault.unrecognisedToken (String.singleton c)).at cursor.position)
      | some (lexeme, taken, rest) => do
        let tokens ← tokensWithin n (cursor.past taken rest)
        match lexeme.token? taken with
        | some (kind, value) => pure (⟨kind, value, cursor.spanOf taken⟩ :: tokens)
        | none => pure tokens

def Cursor.tokens (cursor : Cursor) : Except Diagnostic (List Token) :=
  cursor.tokensWithin cursor.rest.length

/-- The tokens of a source, the end of the source last. -/
def Source.tokens (source : Source) : Except Diagnostic (List Token) :=
  (Cursor.start source).tokens

/-- The name of a source that has none of its own. -/
def Source.unnamed : String := "shell"

end Piecewise
