import Piecewise.Grammar.Program
import Piecewise.Grammar.Walk

/-!
# Walks without bounds

Expressions, types and programs are read by walks that call each other as long as it takes, with no
bound on how deep or how often. Nothing in the definitions says that they ever answer.
-/

namespace Piecewise

open Piecewise.Walk

namespace Grammar

section Expressions

def walkPrimary : Walk Expr := do
  let token ← advance
  match token.kind with
  | .number =>
    match Decimal.read? token.value with
    | some value => return .number token.span value
    | none => throw ((Fault.malformedNumber token.value).at token.span.start)
  | .text => return .text token.span token.value
  | .trueWord => return .boolean token.span true
  | .falseWord => return .boolean token.span false
  | .identifier => return .identifier token.span token.value
  | _ => throw (Parser.misplaced token)

mutual

/-- An expression of a level: a first operand, joined to what follows as long as the next token
joins more tightly. -/
def walkExpr (g : Grammar) (level : Level) : Walk Expr := do
  match g.opening? (← kind) with
  | none => unexpected
  | some form =>
    let left ← g |>.walkOpened form
    g |>.walkExtended level left
partial_fixpoint

def walkExtended (g : Grammar) (level : Level) (left : Expr) : Walk Expr := do
  match g.joining? (← kind) with
  | none => return left
  | some (tightness, form) =>
    if level < tightness then
      let wider ← g |>.walkJoined left tightness form
      g |>.walkExtended level wider
    else return left
partial_fixpoint

def walkOpened (g : Grammar) : Opening → Walk Expr
  | .primary => walkPrimary
  | .signed => g |>.walkSigned
  | .group => g |>.walkGroup
  | .list => g |>.walkList
  | .conditional => g |>.walkConditional
partial_fixpoint

def walkJoined (g : Grammar) (left : Expr) (level : Level) : Joining → Walk Expr
  | .binary => g |>.walkBinary left level
  | .power => g |>.walkPower left
  | .call => g |>.walkCall left
partial_fixpoint

def walkSigned (g : Grammar) : Walk Expr := do
  let token ← advance
  let op := if token.kind = .notWord then UnaryOp.not else .negate
  let operand ← g |>.walkExpr .unary
  return .unary ⟨token.span.start, operand.span.stop⟩ op operand
partial_fixpoint

def walkGroup (g : Grammar) : Walk Expr := do
  let _ ← expect .openParen
  let e ← g |>.walkExpr .default
  let _ ← expect .closeParen
  return e
partial_fixpoint

def walkList (g : Grammar) : Walk Expr := do
  let start := (← expect .openBracket).span.start
  let elements ← g |>.walkExprs .closeBracket
  let _ ← expect .closeBracket
  return .list ⟨start, ← stopped⟩ elements
partial_fixpoint

def walkConditional (g : Grammar) : Walk Expr := do
  let start := (← expect .ifWord).span.start
  let condition ← g |>.walkExpr .default
  let _ ← expect .thenWord
  let whenTrue ← g |>.walkExpr .default
  let _ ← expect .elseWord
  let whenFalse ← g |>.walkExpr .default
  return .conditional ⟨start, ← stopped⟩ condition whenTrue whenFalse
partial_fixpoint

def walkBinary (g : Grammar) (left : Expr) (level : Level) : Walk Expr := do
  let token ← advance
  match BinaryOp.ofKind? token.kind with
  | none => throw (Parser.misplaced token)
  | some op =>
    let right ← g |>.walkExpr level
    return .between op left right
partial_fixpoint

def walkPower (g : Grammar) (left : Expr) : Walk Expr := do
  let _ ← expect .caret
  let right ← g |>.walkExpr .multiplicative
  return .between (.arithmetic .power) left right
partial_fixpoint

def walkCall (g : Grammar) (left : Expr) : Walk Expr := do
  match left with
  | .identifier span callee =>
    let _ ← expect .openParen
    let arguments ← g |>.walkExprs .closeParen
    let _ ← expect .closeParen
    return .call ⟨span.start, ← stopped⟩ callee arguments
  | _ => unexpectedBecause "only named functions can be called"
partial_fixpoint

/-- Expressions with commas between them up to a closing token, which is left. -/
def walkExprs (g : Grammar) (close : TokenKind) : Walk (List Expr) := do
  if (← kind) = close then return []
  else
    let first ← g |>.walkExpr .default
    if ← eat .comma then return first :: (← g |>.walkExprs close)
    else return [first]
partial_fixpoint

end

end Expressions

section Types

def walkPrimitiveType : Walk TypeExpr := do
  let token ← expect .identifier
  match PrimitiveType.ofName? token.value with
  | some name => return .primitive token.span name
  | none => throw ((Fault.unknownType token.value).at token.span.start)

mutual

def walkType (g : Grammar) : Walk TypeExpr := do
  match g.typeOpening? (← kind) with
  | none => unexpectedBecause "expected a type"
  | some .name => walkPrimitiveType
  | some .list => g |>.walkListType
  | some .function => g |>.walkFunctionType
partial_fixpoint

def walkListType (g : Grammar) : Walk TypeExpr := do
  let start := (← expect .openBracket).span.start
  let element ← g |>.walkType
  let _ ← expect .closeBracket
  return .list ⟨start, ← stopped⟩ element
partial_fixpoint

def walkFunctionType (g : Grammar) : Walk TypeExpr := do
  let start := (← expect .openParen).span.start
  let inputs ← g |>.walkTypes
  let _ ← expect .closeParen
  let _ ← expect .arrow
  let output ← g |>.walkType
  return .function ⟨start, ← stopped⟩ inputs output
partial_fixpoint

/-- Types with commas between them up to a closing parenthesis, which is left. -/
def walkTypes (g : Grammar) : Walk (List TypeExpr) := do
  if (← kind) = .closeParen then return []
  else
    let first ← g |>.walkType
    if ← eat .comma then return first :: (← g |>.walkTypes)
    else return [first]
partial_fixpoint

end

end Types

section Programs

def walkParameter (g : Grammar) : Walk Param := do
  let token ← expect .identifier
  let _ ← expect .colon
  let type ← g |>.walkType
  return ⟨token.value, type, ⟨token.span.start, ← stopped⟩⟩

/-- Parameters with commas between them up to a closing parenthesis, which is left. -/
def walkParameters (g : Grammar) : Walk (List Param) := do
  if (← kind) = .closeParen then return []
  else
    let first ← g |>.walkParameter
    if ← eat .comma then return first :: (← g |>.walkParameters)
    else return [first]
partial_fixpoint

def walkBranch (g : Grammar) : Walk Branch := do
  let guard ← g |>.walkExpr .default
  let _ ← expect .fatArrow
  let action ← g |>.walkExpr .default
  let _ ← expect .comma
  return ⟨guard, action, ⟨guard.span.start, action.span.stop⟩⟩

def walkBranches (g : Grammar) : Walk (List Branch) := do
  match ← kind with
  | .elseWord => return []
  | .closeCurly | .eof => unexpectedBecause "a piecewise body must end with an `else` branch"
  | _ => return (← g |>.walkBranch) :: (← g |>.walkBranches)
partial_fixpoint

def walkPiecewise (g : Grammar) : Walk Body := do
  let start := (← expect .openCurly).span.start
  let guarded ← g |>.walkBranches
  let _ ← expect .elseWord
  let _ ← expect .fatArrow
  let otherwise ← g |>.walkExpr .default
  let _ ← eat .comma
  let _ ← expect .closeCurly
  return .piecewise ⟨start, ← stopped⟩ guarded otherwise

def walkBody (g : Grammar) : Walk Body := do
  match ← kind with
  | .assignment =>
    let _ ← advance
    let value ← g |>.walkExpr .default
    let _ ← expect .semicolon
    return .inline value
  | .openCurly =>
    let body ← g |>.walkPiecewise
    let _ ← eat .semicolon
    return body
  | _ => unexpectedBecause "expected `=` or `\x7b` to start the function body"

def walkDeclaration (g : Grammar) : Walk Declaration := do
  let start := (← expect .fn).span.start
  let name ← expectOr .identifier
    (Parser.misplacedBecause "expected identifier in function declaration")
  let _ ← expect .openParen
  let parameters ← g |>.walkParameters
  let _ ← expect .closeParen
  let _ ← expect .arrow
  let returns ← g |>.walkType
  let body ← g |>.walkBody
  return ⟨0, name.value, parameters, returns, body, ⟨start, ← stopped⟩⟩

/-- Declarations up to the end of the source. -/
def walkDeclarations (g : Grammar) : Walk (List Declaration) := do
  if (← kind) = .eof then return []
  else return (← g |>.walkDeclaration) :: (← g |>.walkDeclarations)
partial_fixpoint

def walkProgram (g : Grammar) : Walk Program := do
  let start ← position
  let declarations ← g |>.walkDeclarations
  return Program.numberedFrom 0 ⟨declarations, ⟨start, ← position⟩⟩

end Programs

end Grammar

end Piecewise
