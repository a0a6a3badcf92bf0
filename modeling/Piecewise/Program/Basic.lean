import Piecewise.Expr.Basic
import Piecewise.Program.TypeExpr

/-!
# Programs

A program is a list of function declarations. The body of a function is one expression, or a
piecewise body: guarded branches tried in order and an expression for the case that no guard holds.
-/

namespace Piecewise

structure Param where
  name : String
  type : TypeExpr
  span : Span

structure Branch where
  guard : Expr
  action : Expr
  span : Span

inductive Body
  | inline (value : Expr)
  | piecewise (span : Span) (branches : List Branch) (otherwise : Expr)

def Body.span : Body → Span
  | .inline value => value.span
  | .piecewise span _ _ => span

/-- The declaration of a function. Its number tells it from every other declaration, also from one
that reads the same. -/
structure Declaration where
  number : Nat
  name : String
  parameters : List Param
  returns : TypeExpr
  body : Body
  span : Span

namespace Declaration

/-- The parameters with the types that are meant. -/
def inputs (d : Declaration) : List (Parameter Ty) :=
  d.parameters.map fun p => ⟨p.name, p.type.toTy⟩

/-- The result type that is meant. -/
def output (d : Declaration) : Ty := d.returns.toTy

def signature (d : Declaration) : Ty := .function d.inputs d.output

end Declaration

/-- A program: its declarations in source order, and where it is written. -/
structure Program where
  declarations : List Declaration
  span : Span

namespace Program

/-- The first declaration with the given name. -/
def find? (p : Program) (name : String) : Option Declaration :=
  p.declarations.find? fun d => d.name = name

/-- The program with its declarations numbered in order. -/
def numberedFrom (first : Nat) (p : Program) : Program :=
  { p with declarations := p.declarations.mapIdx fun i d => { d with number := first + i } }

/-- Two programs in one: the declarations of the first before those of the second, the span up to
where the second stops. -/
def append (p q : Program) : Program :=
  ⟨p.declarations ++ q.declarations, ⟨p.span.start, q.span.stop⟩⟩

end Program

end Piecewise
