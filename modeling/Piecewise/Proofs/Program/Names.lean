import Piecewise.Scope.Stack

/-!
# Names in programs

Which names a body uses and in which place, and the scopes that a program and its functions
give rise to. A name is used as a value where it is an expression of its own, and as a callee
where it is called.
-/

namespace Piecewise

/-- A call as written: the name that is called and the arguments. -/
structure CallSite where
  callee : String
  arguments : List Expr

namespace Expr

mutual

/-- The names used as values, in order. -/
def identifiers : Expr → List String
  | boolean _ _ | number _ _ | text _ _ => []
  | identifier _ name => [name]
  | call _ _ arguments => identifiersAll arguments
  | unary _ _ operand => operand.identifiers
  | binary _ _ left right => left.identifiers ++ right.identifiers
  | conditional _ condition whenTrue whenFalse =>
    condition.identifiers ++ (whenTrue.identifiers ++ whenFalse.identifiers)
  | list _ elements => identifiersAll elements

def identifiersAll : List Expr → List String
  | [] => []
  | e :: rest => e.identifiers ++ identifiersAll rest

end

mutual

/-- The calls of an expression, outer before inner. -/
def calls : Expr → List CallSite
  | boolean _ _ | number _ _ | text _ _ | identifier _ _ => []
  | call _ callee arguments => ⟨callee, arguments⟩ :: callsAll arguments
  | unary _ _ operand => operand.calls
  | binary _ _ left right => left.calls ++ right.calls
  | conditional _ condition whenTrue whenFalse =>
    condition.calls ++ (whenTrue.calls ++ whenFalse.calls)
  | list _ elements => callsAll elements

def callsAll : List Expr → List CallSite
  | [] => []
  | e :: rest => e.calls ++ callsAll rest

end

end Expr

namespace Body

/-- The expressions of a body, guards and actions in order. -/
def parts : Body → List Expr
  | inline value => [value]
  | piecewise _ branches otherwise =>
    branches.flatMap (fun branch => [branch.guard, branch.action]) ++ [otherwise]

def identifiers (body : Body) : List String := body.parts.flatMap Expr.identifiers

def calls (body : Body) : List CallSite := body.parts.flatMap Expr.calls

end Body

namespace Declaration

def parameterNames (d : Declaration) : List String := d.parameters.map Param.name

/-- The scope of a frame in which nothing is bound to the parameters. -/
def frame (d : Declaration) : Scope :=
  ⟨d.parameters.map fun q => .parameter q.name q.type.toTy⟩

end Declaration

/-- The symbol of a function whose type is known. -/
def Symbol.ofSignature (d : Declaration) : Symbol :=
  { Symbol.ofDeclaration d with type := d.signature }

namespace Program

def names (p : Program) : List String := p.declarations.map Declaration.name

/-- The global scope in which exactly the functions of the given names have their type. -/
def globals (p : Program) (resolved : List String) : Scope :=
  ⟨p.declarations.map fun d =>
    if d.name ∈ resolved then .ofSignature d else .ofDeclaration d⟩

/-- The global scope in which every function has the type it is declared with. -/
def signatures (p : Program) : Scope := ⟨p.declarations.map .ofSignature⟩

/-- No function is used as a value: a name that is not called is a parameter of its own function,
or names nothing at all. -/
def OnlyCallsFunctions (p : Program) : Prop :=
  ∀ d ∈ p.declarations, ∀ name ∈ d.body.identifiers,
    name ∈ d.parameterNames ∨ name ∉ p.names

instance (p : Program) : Decidable p.OnlyCallsFunctions :=
  inferInstanceAs (Decidable (∀ d ∈ p.declarations, ∀ name ∈ d.body.identifiers, _))

theorem globals_of_subset {p : Program} {resolved : List String}
    (h : p.names ⊆ resolved) : p.globals resolved = p.signatures := by
  refine congrArg Scope.mk (List.map_congr_left fun d hd => if_pos (h ?_))
  exact List.mem_map_of_mem hd

theorem signatures_eq_globals (p : Program) : p.signatures = p.globals p.names :=
  (globals_of_subset fun _ h => h).symm

end Program

end Piecewise
