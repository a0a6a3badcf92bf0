import Piecewise.Decimal.Reading
import Piecewise.Expr.Basic
import Piecewise.Grammar.Stream
import Piecewise.Grammar.Table

/-!
# Reading expressions

An expression of a level is a first operand, told by its opening token, joined to what follows as
long as the next token joins more tightly than the level. The forms are written for any way to
read the expressions inside them. `exprWithin` ties the knot: every form takes a token before it
reads an expression, so a bound on the tokens ahead that drops by one at each step is never in the
way. Where the bound is zero no token is ahead, and the end of the source opens no expression.
-/

namespace Piecewise

open Piecewise.Parser

namespace Grammar

def primary : Parser Expr := do
  let token ← advance
  match token.kind with
  | .number =>
    match Decimal.read? token.value with
    | some value => return .number token.span value
    | none => throw ((Fault.malformedNumber token.value).at token.span.start)
  | .text => return .text token.span token.value
  | .trueWord => return .boolean token.span true
  | .falseWord => return .boolean token.span false
  | .identifier => return .identifier token.span token.value
  | _ => throw (misplaced token)

/-- An operator before its operand, which binds more tightly than any operator between
operands. -/
def signed (inner : Level → Parser Expr) : Parser Expr := do
  let token ← advance
  let op := if token.kind = .notWord then UnaryOp.not else .negate
  let operand ← inner .unary
  return .unary ⟨token.span.start, operand.span.stop⟩ op operand

def group (inner : Level → Parser Expr) : Parser Expr := do
  let _ ← expect .openParen
  let e ← inner .default
  let _ ← expect .closeParen
  return e

def list (inner : Level → Parser Expr) (bound : Nat) : Parser Expr := do
  let start := (← expect .openBracket).span.start
  let elements ← separated (inner .default) .closeBracket bound
  let _ ← expect .closeBracket
  return .list ⟨start, ← stopped⟩ elements

/-- A condition with an expression for either case. -/
def conditional (inner : Level → Parser Expr) : Parser Expr := do
  let start := (← expect .ifWord).span.start
  let condition ← inner .default
  let _ ← expect .thenWord
  let whenTrue ← inner .default
  let _ ← expect .elseWord
  let whenFalse ← inner .default
  return .conditional ⟨start, ← stopped⟩ condition whenTrue whenFalse

/-- An operator between two operands; the right one binds more tightly than the level. -/
def binary (inner : Level → Parser Expr) (left : Expr) (level : Level) : Parser Expr := do
  let token ← advance
  match BinaryOp.ofKind? token.kind with
  | none => throw (misplaced token)
  | some op =>
    let right ← inner level
    return .between op left right

/-- A power; its right operand may be a power itself. -/
def power (inner : Level → Parser Expr) (left : Expr) : Parser Expr := do
  let _ ← expect .caret
  let right ← inner .multiplicative
  return .between (.arithmetic .power) left right

def call (inner : Level → Parser Expr) (bound : Nat) (left : Expr) : Parser Expr := do
  match left with
  | .identifier span callee =>
    let _ ← expect .openParen
    let arguments ← separated (inner .default) .closeParen bound
    let _ ← expect .closeParen
    return .call ⟨span.start, ← stopped⟩ callee arguments
  | _ => unexpectedBecause "only named functions can be called"

/-- The form that an opening token introduces. -/
def opened (inner : Level → Parser Expr) (bound : Nat) : Opening → Parser Expr
  | .primary => primary
  | .signed => signed inner
  | .group => group inner
  | .list => list inner bound
  | .conditional => conditional inner

/-- The form that a joining token introduces. -/
def joined (inner : Level → Parser Expr) (bound : Nat) (left : Expr) (level : Level) :
    Joining → Parser Expr
  | .binary => binary inner left level
  | .power => power inner left
  | .call => call inner bound left

/-- An operand joined to what follows as long as the next token joins more tightly than the
level. -/
def extended (g : Grammar) (inner : Level → Parser Expr) (level : Level) :
    Nat → Expr → Parser Expr
  | 0, left => return left
  | n + 1, left => do
    match g.joining? (← kind) with
    | none => return left
    | some (tightness, form) =>
      if level < tightness then
        let wider ← joined inner n left tightness form
        extended g inner level n wider
      else return left

/-- An expression of a level, with at most the given number of tokens ahead. -/
def exprWithin (g : Grammar) : Nat → Level → Parser Expr
  | 0, _ => unexpected
  | n + 1, level => do
    match g.opening? (← kind) with
    | none => unexpected
    | some form =>
      let left ← opened (fun l => exprWithin g n l) n form
      extended g (fun l => exprWithin g n l) level n left

def expr (g : Grammar) (level : Level) : Parser Expr := do
  g.exprWithin (← remaining) level

/-- How tightly the next token joins; a token that joins nothing has the loosest level. -/
def tightness (g : Grammar) : Parser Level := do
  match g.joining? (← kind) with
  | none => return .default
  | some (level, _) => return level

end Grammar

end Piecewise
