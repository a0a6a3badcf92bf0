import Piecewise.Grammar.Stream

/-!
# Walks over tokens

A walk reads tokens by their places in a list that the end of the source closes. Unlike a parser on
a token stream, it can fail to answer: a place may have no token, and a walk that calls itself may
do so for ever. It also keeps the places of the tokens it has taken, in the order it took them.
-/

namespace Piecewise

/-- The tokens of a file, closed by the end of the source. An end may stand before it as well. -/
structure ClosedTokens where
  file : String
  front : List Token
  last : Token
  ended : last.kind = .eof

namespace ClosedTokens

def all (tokens : ClosedTokens) : List Token := tokens.front ++ [tokens.last]

/-- A list of tokens, closed where its last token stops if that is not the end of the source. -/
def of (file : String) (tokens : List Token) : ClosedTokens :=
  match tokens.getLast? with
  | none => ⟨file, [], ⟨.eof, "EOF", .at (.first file)⟩, rfl⟩
  | some last =>
    if h : last.kind = .eof then ⟨file, tokens.dropLast, last, h⟩
    else ⟨file, tokens, ⟨.eof, "EOF", .at last.span.stop⟩, rfl⟩

end ClosedTokens

/-- Where a walk is. -/
structure Standing where
  tokens : ClosedTokens
  /-- The place of the token to be read next. -/
  place : Nat
  /-- The places of the tokens taken so far. -/
  taken : List Nat

/-- A walk has no answer if it never ends or reads a place without a token. -/
abbrev Walk := ExceptT Diagnostic (StateT Standing Option)

namespace Walk

/-- The token in a place. -/
def tokenAt (place : Nat) : Walk Token := do
  let token ← ((← get).tokens.all[place]? : Option Token)
  return token

def current : Walk Token := do tokenAt (← get).place

def kind : Walk TokenKind := return (← current).kind

def position : Walk Position := return (← current).span.start

/-- Where the token before the current one stops. -/
def stopped : Walk Position := do
  match (← get).place with
  | 0 => return .first (← get).tokens.file
  | place + 1 => return (← tokenAt place).span.stop

/-- Takes the current token and moves to the next one, if there is one. -/
def advance : Walk Token := do
  let here ← get
  let next := if here.place + 1 < here.tokens.all.length then here.place + 1 else here.place
  set { here with place := next, taken := here.taken ++ [here.place] }
  tokenAt here.place

def unexpected {α : Type} : Walk α := do throw (Parser.misplaced (← current))

/-- Fails at the current token with a reason. -/
def unexpectedBecause {α : Type} (message : String) : Walk α := do
  throw (Parser.misplacedBecause message (← current))

/-- The current token if it is of a kind, else a given failure. -/
def expectOr (kind : TokenKind) (failure : Token → Diagnostic) : Walk Token := do
  let token ← current
  if token.kind = kind then advance else throw (failure token)

/-- The current token, which must be of a kind. -/
def expect (kind : TokenKind) : Walk Token :=
  expectOr kind (Parser.misplacedBecause ("expected " ++ kind.name))

/-- Takes the current token if it is of a kind, and says whether it was. -/
def eat (kind : TokenKind) : Walk Bool := do
  if (← current).kind = kind then
    let _ ← advance
    return true
  else return false

end Walk

end Piecewise
