import Piecewise.Grammar.Expr
import Piecewise.Grammar.TypeExpr
import Piecewise.Program.Basic
import Piecewise.Token.Scan

/-!
# Reading programs

A declaration is `fn`, a name, parameters with their types, a result type and a body. A program is
a list of declarations up to the end of the source.
-/

namespace Piecewise

open Piecewise.Parser

namespace Grammar

def parameter (g : Grammar) (bound : Nat) : Parser Param := do
  let token ← expect .identifier
  let _ ← expect .colon
  let type ← g.typeWithin bound
  return ⟨token.value, type, ⟨token.span.start, ← stopped⟩⟩

/-- A guard with its action, up to the comma behind them. -/
def branch (g : Grammar) (bound : Nat) : Parser Branch := do
  let guard ← g.exprWithin bound .default
  let _ ← expect .fatArrow
  let action ← g.exprWithin bound .default
  let _ ← expect .comma
  return ⟨guard, action, ⟨guard.span.start, action.span.stop⟩⟩

/-- Guarded branches up to the branch for the case that no guard holds, which must follow. -/
def branches (g : Grammar) (bound : Nat) : Nat → Parser (List Branch)
  | 0 => unexpectedBecause "a piecewise body must end with an `else` branch"
  | n + 1 => do
    match ← kind with
    | .elseWord => return []
    | .closeCurly | .eof => unexpectedBecause "a piecewise body must end with an `else` branch"
    | _ => return (← g.branch bound) :: (← branches g bound n)

def piecewise (g : Grammar) (bound : Nat) : Parser Body := do
  let start := (← expect .openCurly).span.start
  let guarded ← g.branches bound bound
  let _ ← expect .elseWord
  let _ ← expect .fatArrow
  let otherwise ← g.exprWithin bound .default
  let _ ← eat .comma
  let _ ← expect .closeCurly
  return .piecewise ⟨start, ← stopped⟩ guarded otherwise

/-- A body: an expression up to its semicolon, or a piecewise body, behind which a semicolon may
stand. -/
def body (g : Grammar) (bound : Nat) : Parser Body := do
  match ← kind with
  | .assignment =>
    let _ ← advance
    let value ← g.exprWithin bound .default
    let _ ← expect .semicolon
    return .inline value
  | .openCurly =>
    let body ← g.piecewise bound
    let _ ← eat .semicolon
    return body
  | _ => unexpectedBecause "expected `=` or `\x7b` to start the function body"

/-- A declaration, with at most the given number of tokens ahead. It is not numbered yet. -/
def declarationWithin (g : Grammar) (bound : Nat) : Parser Declaration := do
  let start := (← expect .fn).span.start
  let name ← expectOr .identifier
    (misplacedBecause "expected identifier in function declaration")
  let _ ← expect .openParen
  let parameters ← separated (g.parameter bound) .closeParen bound
  let _ ← expect .closeParen
  let _ ← expect .arrow
  let returns ← g.typeWithin bound
  let body ← g.body bound
  return ⟨0, name.value, parameters, returns, body, ⟨start, ← stopped⟩⟩

def declaration (g : Grammar) : Parser Declaration := do
  g.declarationWithin (← remaining)

/-- Declarations up to the end of the source, with at most the given number of tokens ahead. -/
def declarations (g : Grammar) (bound : Nat) : Nat → Parser (List Declaration)
  | 0 => return []
  | n + 1 => do
    if (← kind) = .eof then return []
    else return (← g.declarationWithin bound) :: (← declarations g bound n)

/-- A program: its span runs from the first token to the end of the source. -/
def program (g : Grammar) : Parser Program := do
  let start ← position
  let bound ← remaining
  let declarations ← g.declarations bound bound
  return Program.numberedFrom 0 ⟨declarations, ⟨start, ← position⟩⟩

end Grammar

namespace Program

/-- The program that a list of tokens writes. -/
def ofTokens (file : String) (tokens : List Token) : Except Diagnostic Program :=
  match Grammar.standard.program (.ofTokens file tokens) with
  | .ok program _ => .ok program
  | .error d _ => .error d

def ofSource (source : Source) : Except Diagnostic Program :=
  source.tokens >>= ofTokens source.name

end Program

end Piecewise
