import Piecewise.Grammar.Stream
import Piecewise.Grammar.Table
import Piecewise.Program.TypeExpr

/-!
# Reading types

A type is told by its first token. As with expressions, every form takes a token before it reads a
type inside, so the number of tokens ahead bounds the depth.
-/

namespace Piecewise

open Piecewise.Parser

namespace Grammar

def primitiveType : Parser TypeExpr := do
  let token ← expect .identifier
  match PrimitiveType.ofName? token.value with
  | some name => return .primitive token.span name
  | none => throw ((Fault.unknownType token.value).at token.span.start)

def listType (inner : Parser TypeExpr) : Parser TypeExpr := do
  let start := (← expect .openBracket).span.start
  let element ← inner
  let _ ← expect .closeBracket
  return .list ⟨start, ← stopped⟩ element

/-- Input types in parentheses, an arrow and the output type. -/
def functionType (inner : Parser TypeExpr) (bound : Nat) : Parser TypeExpr := do
  let start := (← expect .openParen).span.start
  let inputs ← separated inner .closeParen bound
  let _ ← expect .closeParen
  let _ ← expect .arrow
  let output ← inner
  return .function ⟨start, ← stopped⟩ inputs output

/-- A type, with at most the given number of tokens ahead. -/
def typeWithin (g : Grammar) : Nat → Parser TypeExpr
  | 0 => unexpectedBecause "expected a type"
  | n + 1 => do
    match g.typeOpening? (← kind) with
    | none => unexpectedBecause "expected a type"
    | some .name => primitiveType
    | some .list => listType (typeWithin g n)
    | some .function => functionType (typeWithin g n) n

def type (g : Grammar) : Parser TypeExpr := do
  g.typeWithin (← remaining)

end Grammar

end Piecewise
