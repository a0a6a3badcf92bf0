import Piecewise.Token.Kind

/-!
# Grammar tables

Expressions are built by levels of binding. A grammar says which tokens can open an expression,
which tokens can join an expression to what follows and how tightly they do, and which tokens can
open a type. Tokens that only open an expression join nothing, so they end the expression before
them.
-/

namespace Piecewise

/-- How tightly a form binds, loosest first. -/
inductive Level
  | default
  | or
  | and
  | relational
  | concat
  | additive
  | multiplicative
  | power
  | unary
  | call
  | primary
  deriving DecidableEq, Inhabited

namespace Level

/-- The levels from the loosest to the tightest. -/
def all : List Level :=
  [default, or, and, relational, concat, additive, multiplicative, power, unary, call, primary]

def rank (level : Level) : Nat := level.ctorIdx

def name : Level → String
  | default => "Default"
  | or => "Or"
  | and => "And"
  | relational => "Relational"
  | concat => "Concat"
  | additive => "Additive"
  | multiplicative => "Multiplicative"
  | power => "Power"
  | unary => "Unary"
  | call => "Call"
  | primary => "Primary"

def ofName? (name : String) : Option Level :=
  all.find? fun level => level.name = name

instance : LT Level := ⟨fun a b => a.rank < b.rank⟩

instance : LE Level := ⟨fun a b => a.rank ≤ b.rank⟩

instance (a b : Level) : Decidable (a < b) := inferInstanceAs (Decidable (a.rank < b.rank))

instance (a b : Level) : Decidable (a ≤ b) := inferInstanceAs (Decidable (a.rank ≤ b.rank))

end Level

/-- A form of expression told by its first token. -/
inductive Opening
  | primary
  | signed
  | group
  | list
  | conditional
  deriving DecidableEq

/-- A form of expression told by the token after its first operand. -/
inductive Joining
  | binary
  | power
  | call
  deriving DecidableEq

/-- A form of written type, told by its first token. -/
inductive TypeOpening
  | name
  | list
  | function
  deriving DecidableEq

/-- Which forms the tokens introduce. -/
structure Grammar where
  opening? : TokenKind → Option Opening
  joining? : TokenKind → Option (Level × Joining)
  typeOpening? : TokenKind → Option TypeOpening

namespace Grammar

def empty : Grammar := ⟨fun _ => none, fun _ => none, fun _ => none⟩

def standardOpening? : TokenKind → Option Opening
  | .number | .text | .trueWord | .falseWord | .identifier => some .primary
  | .dash | .notWord => some .signed
  | .openParen => some .group
  | .openBracket => some .list
  | .ifWord => some .conditional
  | _ => none

/-- The tokens that join an expression to what follows, with their levels. -/
def standardJoining? : TokenKind → Option (Level × Joining)
  | .orWord => some (.or, .binary)
  | .andWord => some (.and, .binary)
  | .equals | .less | .lessEquals | .greater | .greaterEquals => some (.relational, .binary)
  | .plusPlus => some (.concat, .binary)
  | .plus | .dash => some (.additive, .binary)
  | .star | .slash | .percent => some (.multiplicative, .binary)
  | .caret => some (.power, .power)
  | .openParen => some (.call, .call)
  | _ => none

def standardTypeOpening? : TokenKind → Option TypeOpening
  | .identifier => some .name
  | .openBracket => some .list
  | .openParen => some .function
  | _ => none

/-- A grammar with the expressions of the language added. -/
def withExpressions (g : Grammar) : Grammar :=
  { g with opening? := standardOpening?, joining? := standardJoining? }

/-- A grammar with the types of the language added. -/
def withTypes (g : Grammar) : Grammar :=
  { g with typeOpening? := standardTypeOpening? }

def standard : Grammar := empty.withExpressions.withTypes

end Grammar

end Piecewise
