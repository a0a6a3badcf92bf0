import Piecewise.Diagnostic.Basic
import Piecewise.Token.Basic

/-!
# Token streams

A parser reads tokens from a stream that never runs dry: after the last token comes the end of the
source, again and again. A parsing step that fails leaves the stream where the failure left it.
-/

namespace Piecewise

/-- The tokens that are still to be read. -/
structure TokenStream where
  /-- Where the token read last stops. -/
  before : Position
  /-- The tokens ahead, the end of the source left out. -/
  ahead : List Token
  /-- What the end of the source is called. -/
  endValue : String
  /-- Where the source ends. -/
  endSpan : Span

namespace TokenStream

/-- The stream of a list of tokens. If the last one is not the end of the source, the end comes
where the last one stops. -/
def ofTokens (file : String) (tokens : List Token) : TokenStream :=
  match tokens.getLast? with
  | none => ⟨.first file, [], "EOF", .at (.first file)⟩
  | some last =>
    if last.kind = .eof then ⟨.first file, tokens.dropLast, last.value, last.span⟩
    else ⟨.first file, tokens, "EOF", .at last.span.stop⟩

def endToken (s : TokenStream) : Token := ⟨.eof, s.endValue, s.endSpan⟩

def current (s : TokenStream) : Token :=
  match s.ahead with
  | [] => s.endToken
  | token :: _ => token

/-- The stream after the next token; the end of the source is never passed. -/
def next (s : TokenStream) : TokenStream :=
  match s.ahead with
  | [] => s
  | token :: rest => { s with before := token.span.stop, ahead := rest }

end TokenStream

abbrev Parser := EStateM Diagnostic TokenStream

namespace Parser

def current : Parser Token := do return (← get).current

def kind : Parser TokenKind := do return (← get).current.kind

def position : Parser Position := do return (← get).current.span.start

def stopped : Parser Position := do return (← get).before

def remaining : Parser Nat := do return (← get).ahead.length

/-- The next token, taken from the stream. -/
def advance : Parser Token := do
  let stream ← get
  set stream.next
  return stream.current

/-- The diagnostic that a token has no place here. -/
def misplaced (token : Token) : Diagnostic :=
  (Fault.unexpectedToken token.value).at token.span.start

/-- The diagnostic that something other than the token is asked for. -/
def misplacedBecause (message : String) (token : Token) : Diagnostic :=
  (Fault.unexpectedTokenBecause token.value message).at token.span.start

def unexpected {α : Type} : Parser α := do throw (misplaced (← current))

/-- Fails at the next token with a reason. -/
def unexpectedBecause {α : Type} (message : String) : Parser α := do
  throw (misplacedBecause message (← current))

/-- The next token if it is of a kind, else a given failure. -/
def expectOr (kind : TokenKind) (failure : Token → Diagnostic) : Parser Token := do
  let token ← current
  if token.kind = kind then advance else throw (failure token)

/-- The next token, which must be of a kind. -/
def expect (kind : TokenKind) : Parser Token :=
  expectOr kind (misplacedBecause ("expected " ++ kind.name))

/-- Takes the next token if it is of a kind, and says whether it was. -/
def eat (kind : TokenKind) : Parser Bool := do
  if (← current).kind = kind then
    let _ ← advance
    return true
  else return false

/-- Items with commas between them up to a closing token, which is left. A comma may stand before
the closing token. With at most `n` tokens ahead there are at most `n` commas. -/
def separated {α : Type} (item : Parser α) (close : TokenKind) : Nat → Parser (List α)
  | 0 => do
    if (← kind) = close then return []
    else return [← item]
  | n + 1 => do
    if (← kind) = close then return []
    else
      let first ← item
      if ← eat .comma then return first :: (← separated item close n)
      else return [first]

end Parser

end Piecewise
