import Mathlib.Data.List.Find
import Mathlib.Data.List.Nodup
import Piecewise.Proofs.Program.Names
import Piecewise.Value.Basic

/-!
# Parameters by another name

A parameter of one function gets another name, where it is declared and wherever the body of the
function uses it, as a value or as the function of a call. All other names, all places and all types
stay as they are.
-/

namespace Piecewise

structure NameUse where
  name : String
  place : Position
  deriving DecidableEq

namespace Expr

mutual

/-- The names of an expression with their places, callees as well as values. -/
def uses : Expr → List NameUse
  | boolean _ _ | number _ _ | text _ _ => []
  | identifier span name => [⟨name, span.start⟩]
  | call span callee arguments => ⟨callee, span.start⟩ :: usesAll arguments
  | unary _ _ operand => operand.uses
  | binary _ _ left right => left.uses ++ right.uses
  | conditional _ condition whenTrue whenFalse =>
    condition.uses ++ (whenTrue.uses ++ whenFalse.uses)
  | list _ elements => usesAll elements

def usesAll : List Expr → List NameUse
  | [] => []
  | e :: rest => e.uses ++ usesAll rest

end

mutual

def mapNames (ρ : String → String) : Expr → Expr
  | boolean span value => boolean span value
  | number span value => number span value
  | text span value => text span value
  | identifier span name => identifier span (ρ name)
  | call span callee arguments => call span (ρ callee) (mapNamesAll ρ arguments)
  | unary span op operand => unary span op (operand.mapNames ρ)
  | binary span op left right => binary span op (left.mapNames ρ) (right.mapNames ρ)
  | conditional span condition whenTrue whenFalse =>
    conditional span (condition.mapNames ρ) (whenTrue.mapNames ρ) (whenFalse.mapNames ρ)
  | list span elements => list span (mapNamesAll ρ elements)

def mapNamesAll (ρ : String → String) : List Expr → List Expr
  | [] => []
  | e :: rest => e.mapNames ρ :: mapNamesAll ρ rest

end

@[simp] theorem span_mapNames (ρ : String → String) (e : Expr) : (e.mapNames ρ).span = e.span := by
  cases e <;> rfl

@[simp] theorem start_mapNames (ρ : String → String) (e : Expr) :
    (e.mapNames ρ).start = e.start := by
  unfold start
  rw [span_mapNames]

end Expr

def Branch.mapNames (ρ : String → String) (branch : Branch) : Branch :=
  { branch with guard := branch.guard.mapNames ρ, action := branch.action.mapNames ρ }

namespace Body

def uses (body : Body) : List NameUse := body.parts.flatMap Expr.uses

def mapNames (ρ : String → String) : Body → Body
  | inline value => inline (value.mapNames ρ)
  | piecewise span branches otherwise =>
    piecewise span (branches.map (Branch.mapNames ρ)) (otherwise.mapNames ρ)

end Body

/-- One parameter of one function, and the name that it gets. -/
structure Renaming where
  function : String
  old : String
  new : String

namespace Renaming

variable (r : Renaming)

/-- What becomes of a name inside the function of the given name. -/
def inside (function name : String) : String :=
  if function = r.function ∧ name = r.old then r.new else name

/-- A function with its parameter renamed, if it is the one that is meant. -/
def declaration (d : Declaration) : Declaration :=
  { d with
    parameters := d.parameters.map fun q => { q with name := r.inside d.name q.name }
    body := d.body.mapNames (r.inside d.name) }

def program (p : Program) : Program := { p with declarations := p.declarations.map r.declaration }

mutual

/-- A value in the renamed program: function values are the renamed functions. -/
def value : Value → Value
  | .boolean b => .boolean b
  | .real x => .real x
  | .text s => .text s
  | .list allocation elements => .list allocation (values elements)
  | .function d => .function (r.declaration d)
  | .type t => .type t

def values : List Value → List Value
  | [] => []
  | v :: rest => value v :: values rest

end

/-- A parameter of the program is renamed, and its new name is declared nowhere and used nowhere. -/
structure Fits (p : Program) : Prop where
  parameter : ∃ d ∈ p.declarations, d.name = r.function ∧ r.old ∈ d.parameterNames
  undeclared : r.new ∉ p.names ∧ ∀ d ∈ p.declarations, r.new ∉ d.parameterNames
  unused : ∀ d ∈ p.declarations, ∀ use ∈ d.body.uses, use.name ≠ r.new

instance (p : Program) : Decidable (r.Fits p) :=
  decidable_of_iff
    ((∃ d ∈ p.declarations, d.name = r.function ∧ r.old ∈ d.parameterNames) ∧
      (r.new ∉ p.names ∧ ∀ d ∈ p.declarations, r.new ∉ d.parameterNames) ∧
      ∀ d ∈ p.declarations, ∀ use ∈ d.body.uses, use.name ≠ r.new)
    ⟨fun h => ⟨h.1, h.2.1, h.2.2⟩, fun h => ⟨h.parameter, h.undeclared, h.unused⟩⟩

variable {r}

theorem inside_of_ne {function name : String} (h : ¬(function = r.function ∧ name = r.old)) :
    r.inside function name = name :=
  if_neg h

/-- Names other than the new one are kept apart. -/
theorem inside_eq_iff {function a b : String} (ha : a ≠ r.new) (hb : b ≠ r.new) :
    r.inside function a = r.inside function b ↔ a = b := by
  unfold inside
  split <;> split <;> grind

theorem parameterNames_declaration (d : Declaration) :
    (r.declaration d).parameterNames = d.parameterNames.map (r.inside d.name) := by
  simp [declaration, Declaration.parameterNames]

theorem names_program (p : Program) : (r.program p).names = p.names := by
  simp [program, Program.names, declaration]

theorem find?_program (p : Program) (name : String) :
    (r.program p).find? name = (p.find? name).map r.declaration := by
  unfold program Program.find?
  rw [List.find?_map]
  rfl

/-- What is found under a name is found again under the name that it gets. -/
theorem find?_renamed {α : Type} {function name : String} (label : α → String) {change : α → α}
    {xs : List α} (hchange : ∀ a, label (change a) = r.inside function (label a))
    (hxs : ∀ a ∈ xs, label a ≠ r.new) (hname : name ≠ r.new) :
    (xs.map change).find? (fun a => label a = r.inside function name) =
      (xs.find? fun a => label a = name).map change := by
  rw [List.find?_map]
  congr 1
  apply List.find?_congr
  intro a ha
  simp [hchange, inside_eq_iff (hxs a ha) hname]

/-- A function of a program with a parameter to be renamed, in this function or in another. -/
structure Site (r : Renaming) (p : Program) (d : Declaration) : Prop where
  fits : r.Fits p
  distinct : p.names.Nodup
  mem : d ∈ p.declarations

namespace Site

variable {p : Program} {d : Declaration}

/-- Parameters of one function do not get the same name. -/
theorem nodup_parameterNames (h : r.Site p d) (hnodup : d.parameterNames.Nodup) :
    (r.declaration d).parameterNames.Nodup := by
  rw [parameterNames_declaration]
  have hne : ∀ name ∈ d.parameterNames, name ≠ r.new := by
    intro name hname heq
    exact h.fits.undeclared.2 d h.mem (heq ▸ hname)
  apply hnodup.map_on
  intro a ha b hb hab
  exact (inside_eq_iff (hne a ha) (hne b hb)).mp hab

/-- A name that stands for no parameter of the function around it stays as it is. -/
theorem inside_of_not_mem (h : r.Site p d) {name : String} (hname : name ∉ d.parameterNames) :
    r.inside d.name name = name := by
  apply inside_of_ne
  rintro ⟨hfunction, rfl⟩
  obtain ⟨f, hf, hfname, hold⟩ := h.fits.parameter
  rw [List.inj_on_of_nodup_map h.distinct h.mem hf (hfunction.trans hfname.symm)] at hname
  exact hname hold

end Site

end Renaming

end Piecewise
