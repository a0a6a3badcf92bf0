import Piecewise.Source.Position
import Piecewise.Ty.Basic

/-!
# Types as written

A source writes types by name, in brackets for lists, and with an arrow for functions. Each form
keeps its span; `toTy` forgets it.
-/

namespace Piecewise

inductive PrimitiveType
  | bool
  | real
  | int
  | string
  deriving DecidableEq

namespace PrimitiveType

def ofName? : String → Option PrimitiveType
  | "bool" => some bool
  | "real" => some real
  | "int" => some int
  | "string" => some string
  | _ => none

def toTy : PrimitiveType → Ty
  | bool => .boolean
  | real => .real
  | int => .integer
  | string => .text

end PrimitiveType

/-- A type as written in a source. -/
inductive TypeExpr
  | primitive (span : Span) (name : PrimitiveType)
  | list (span : Span) (element : TypeExpr)
  | function (span : Span) (inputs : List TypeExpr) (output : TypeExpr)

namespace TypeExpr

def span : TypeExpr → Span
  | primitive span _ => span
  | list span _ => span
  | function span _ _ => span

mutual

/-- The type that is meant. The inputs of a function have no names. -/
def toTy : TypeExpr → Ty
  | primitive _ name => name.toTy
  | list _ element => .list element.toTy
  | function _ inputs output => .function (toParameters inputs) output.toTy

def toParameters : List TypeExpr → List (Parameter Ty)
  | [] => []
  | input :: rest => ⟨"", input.toTy⟩ :: toParameters rest

end

end TypeExpr

end Piecewise
