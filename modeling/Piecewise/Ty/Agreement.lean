import Piecewise.Ty.Basic

/-!
# When types agree

The checker compares types in two ways. `sameKind` looks at the outermost shape only. `agrees`
compares types in depth, where an unresolved list element agrees with every element and names of
parameters do not count. Types that agree have a common type, their `join`.
-/

namespace Piecewise.Ty

def sameKind (a b : Ty) : Bool := a.kind = b.kind

mutual

/-- Whether two types are the same in depth, an unresolved list element matching any other. -/
def agrees : Ty → Ty → Bool
  | list a, list b => !a.isResolved || !b.isResolved || agrees a b
  | function ps a, function qs b => agreesAll ps qs && agrees a b
  | a, b => sameKind a b

/-- Whether two lists of parameters have the same length and types that agree in order. -/
def agreesAll : List (Parameter Ty) → List (Parameter Ty) → Bool
  | [], [] => true
  | ⟨_, type⟩ :: ps, q :: qs => agrees type q.type && agreesAll ps qs
  | _, _ => false

end

/-- The common type of two types that agree: at every list element the more resolved side. -/
def join : Ty → Ty → Option Ty
  | list a, list b =>
    if !a.isResolved then some (list b)
    else if !b.isResolved then some (list a)
    else (join a b).map list
  | a, b => if agrees a b then some a else none

/-- The type of the concatenation of two lists: the join of their types. -/
def joinLists (a b : Ty) : Option Ty :=
  if a.element?.isSome && b.element?.isSome then join a b else none

end Piecewise.Ty
