import Mathlib.Data.List.Forall2
import Piecewise.Proofs.Scope.Lookup
import Piecewise.Proofs.Ty.Agreement

/-!
# Typing rules

The types of expressions and bodies as rules, without a state: every function has the type that
it is declared with, and parameters hide functions. Two things are left open, so that one set of
rules serves several readings: when a type is good enough for an argument, and whether a function
may be used as a value. Used as a value it has its type, or none yet where it is still to be
visited.
-/

namespace Piecewise

namespace Typing

/-- What a name in a body stands for. -/
inductive Meaning
  | parameter (type : Ty)
  | function (d : Declaration)

def Meaning.type : Meaning → Ty
  | parameter type => type
  | function d => d.signature

/-- What the names of a body can stand for. -/
structure Environment where
  parameters : List (Parameter Ty)
  functions : List Declaration

namespace Environment

def parameter? (Γ : Environment) (name : String) : Option Ty :=
  (Γ.parameters.find? fun q => q.name = name).map Parameter.type

def function? (Γ : Environment) (name : String) : Option Declaration :=
  Γ.functions.find? fun d => d.name = name

/-- A name is a parameter, or else a function. -/
def lookup (Γ : Environment) (name : String) : Option Meaning :=
  match Γ.parameter? name with
  | some type => some (.parameter type)
  | none => (Γ.function? name).map .function

end Environment

def environment (p : Program) (d : Declaration) : Environment := ⟨d.inputs, p.declarations⟩

/-- What the typing rules leave open. -/
structure Rules where
  /-- Whether the first type, of a parameter, accepts the second, of an argument. -/
  accepts : Ty → Ty → Prop
  /-- Whether a function may be used as a value. -/
  functionValues : Prop

/-- What the checker asks for: arguments of the kinds of the parameters, and functions as values
wherever they are named. -/
def checkerRules : Rules := ⟨fun a b => a.sameKind b = true, True⟩

/-- The rules for programs in which functions are only called. -/
def callRules : Rules := ⟨fun a b => a.sameKind b = true, False⟩

mutual

inductive HasType (R : Rules) (Γ : Environment) : Expr → Ty → Prop
  | boolean {span value} : HasType R Γ (.boolean span value) .boolean
  | number {span value} : HasType R Γ (.number span value) .real
  | text {span value} : HasType R Γ (.text span value) .text
  | parameter {span name type} (found : Γ.lookup name = some (.parameter type)) :
      HasType R Γ (.identifier span name) type
  | function {span name d type} (allowed : R.functionValues)
      (found : Γ.lookup name = some (.function d))
      (shown : type = d.signature ∨ type = .unresolved) :
      HasType R Γ (.identifier span name) type
  | call {span callee arguments meaning inputs output types}
      (found : Γ.lookup callee = some meaning)
      (signature : meaning.type = .function inputs output)
      (typed : HaveTypes R Γ arguments types)
      (accepted : List.Forall₂ (fun input type => R.accepts input.type type) inputs types) :
      HasType R Γ (.call span callee arguments) output
  | not {span operand} (typed : HasType R Γ operand .boolean) :
      HasType R Γ (.unary span .not operand) .boolean
  | negate {span operand} (typed : HasType R Γ operand .real) :
      HasType R Γ (.unary span .negate operand) .real
  | and {span left right} (first : HasType R Γ left .boolean)
      (second : HasType R Γ right .boolean) :
      HasType R Γ (.binary span .and left right) .boolean
  | or {span left right} (first : HasType R Γ left .boolean)
      (second : HasType R Γ right .boolean) :
      HasType R Γ (.binary span .or left right) .boolean
  | arithmetic {span a left right} (first : HasType R Γ left .real)
      (second : HasType R Γ right .real) :
      HasType R Γ (.binary span (.arithmetic a) left right) .real
  | compare {span c left right} (first : HasType R Γ left .real)
      (second : HasType R Γ right .real) :
      HasType R Γ (.binary span (.compare c) left right) .boolean
  | equals {span left right a b} (first : HasType R Γ left a) (second : HasType R Γ right b)
      (same : a.sameKind b = true) :
      HasType R Γ (.binary span .equals left right) .boolean
  | concat {span left right a b type} (first : HasType R Γ left a) (second : HasType R Γ right b)
      (joined : a.joinLists b = some type) :
      HasType R Γ (.binary span .concat left right) type
  | conditional {span condition whenTrue whenFalse a b type}
      (guard : HasType R Γ condition .boolean)
      (first : HasType R Γ whenTrue a) (second : HasType R Γ whenFalse b)
      (joined : a.join b = some type) :
      HasType R Γ (.conditional span condition whenTrue whenFalse) type
  | empty {span} : HasType R Γ (.list span []) (.list .unresolved)
  | list {span elements types type} (typed : HaveTypes R Γ elements types)
      (joined : Ty.joinMany types = some type) :
      HasType R Γ (.list span elements) (.list type)

inductive HaveTypes (R : Rules) (Γ : Environment) : List Expr → List Ty → Prop
  | nil : HaveTypes R Γ [] []
  | cons {e rest type types} (first : HasType R Γ e type) (others : HaveTypes R Γ rest types) :
      HaveTypes R Γ (e :: rest) (type :: types)

end

/-- The types of guarded actions in order, where every guard is a boolean. -/
inductive BranchesHaveTypes (R : Rules) (Γ : Environment) : List Branch → List Ty → Prop
  | nil : BranchesHaveTypes R Γ [] []
  | cons {branch rest type types} (guard : HasType R Γ branch.guard .boolean)
      (action : HasType R Γ branch.action type) (others : BranchesHaveTypes R Γ rest types) :
      BranchesHaveTypes R Γ (branch :: rest) (type :: types)

inductive BodyHasType (R : Rules) (Γ : Environment) : Body → Ty → Prop
  | inline {value type} (typed : HasType R Γ value type) : BodyHasType R Γ (.inline value) type
  | piecewise {span branches otherwise types last type}
      (guarded : BranchesHaveTypes R Γ branches types) (typed : HasType R Γ otherwise last)
      (joined : Ty.joinMany (types ++ [last]) = some type) :
      BodyHasType R Γ (.piecewise span branches otherwise) type

/-- A function in order: its parameters have different names, and its body has a type that agrees
with the one it is declared with. -/
structure WellTyped (R : Rules) (p : Program) (d : Declaration) : Prop where
  distinct : d.parameterNames.Nodup
  body : ∃ type, BodyHasType R (environment p d) d.body type ∧ type.agrees d.output = true

end Typing

end Piecewise
