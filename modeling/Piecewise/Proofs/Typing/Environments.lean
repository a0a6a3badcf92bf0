import Piecewise.Proofs.Program.Shared
import Piecewise.Proofs.Typing.Checks

/-!
# Typings and environments

A typing uses its environment only to look names up. So every name in what is typed stands for
something, and in an environment in which all names stand for the same there is the same typing.
-/

namespace Piecewise.Typing

variable {R : Rules} {Γ Γ' : Environment}

def Environment.Knows (Γ : Environment) (name : String) : Prop :=
  ∃ meaning, Γ.lookup name = some meaning

mutual

/-- Every name in a typed expression stands for something. -/
theorem HasType.onlyNames : ∀ {e : Expr} {type : Ty}, HasType R Γ e type →
    OnlyNames Γ.Knows e.identifiers e.calls
  | _, _, .boolean | _, _, .number | _, _, .text | _, _, .empty => .nil
  | _, _, .parameter found => ⟨by simp [Expr.identifiers, Environment.Knows, found], nofun⟩
  | _, _, .function _ found _ => ⟨by simp [Expr.identifiers, Environment.Knows, found], nofun⟩
  | .call _ callee arguments, _, .call found _ typed _ => by
    have hknows : Γ.Knows callee := ⟨_, found⟩
    have harguments := typed.onlyNames
    refine ⟨harguments.values, fun c hc => ?_⟩
    rcases List.mem_cons.mp hc with rfl | hc
    · exact hknows
    · exact harguments.callees c hc
  | _, _, .not typed => typed.onlyNames
  | _, _, .negate typed => typed.onlyNames
  | _, _, .and first second | _, _, .or first second | _, _, .arithmetic first second
  | _, _, .compare first second | _, _, .equals first second _ | _, _, .concat first second _ =>
    first.onlyNames.join second.onlyNames
  | _, _, .conditional guard first second _ =>
    guard.onlyNames.join (first.onlyNames.join second.onlyNames)
  | _, _, .list typed _ => typed.onlyNames

theorem HaveTypes.onlyNames : ∀ {es : List Expr} {types : List Ty}, HaveTypes R Γ es types →
    OnlyNames Γ.Knows (Expr.identifiersAll es) (Expr.callsAll es)
  | _, _, .nil => .nil
  | _, _, .cons first others => first.onlyNames.join others.onlyNames

end

theorem BranchesHaveTypes.onlyNames {branches : List Branch} {types : List Ty}
    (h : BranchesHaveTypes R Γ branches types) : ∀ branch ∈ branches,
    OnlyNames Γ.Knows branch.guard.identifiers branch.guard.calls ∧
      OnlyNames Γ.Knows branch.action.identifiers branch.action.calls := by
  induction h with
  | nil => exact nofun
  | cons guard action _ ih =>
    intro branch hb
    rcases List.mem_cons.mp hb with rfl | hb
    · exact ⟨guard.onlyNames, action.onlyNames⟩
    · exact ih branch hb

/-- Every name in a typed body stands for something. -/
theorem BodyHasType.onlyNames {body : Body} {type : Ty} (h : BodyHasType R Γ body type) :
    OnlyNames Γ.Knows body.identifiers body.calls := by
  refine .of_parts fun e he => ?_
  cases h with
  | inline typed =>
    rw [List.mem_singleton.mp he]
    exact typed.onlyNames
  | piecewise guarded typed _ =>
    rcases List.mem_append.mp he with hbranch | hlast
    · obtain ⟨branch, hb, hmem⟩ := List.mem_flatMap.mp hbranch
      obtain ⟨hguard, haction⟩ := guarded.onlyNames branch hb
      rcases List.mem_cons.mp hmem with rfl | hmem
      · exact hguard
      · rw [List.mem_singleton.mp hmem]
        exact haction
    · rw [List.mem_singleton.mp hlast]
      exact typed.onlyNames

/-- Every name in a function in order is a parameter of it or a function of the program. -/
theorem WellTyped.onlyNames {p : Program} {d : Declaration} (h : WellTyped R p d) :
    OnlyNames (fun name => name ∈ d.parameterNames ∨ name ∈ p.names) d.body.identifiers
      d.body.calls := by
  obtain ⟨_, hbody, _⟩ := h.body
  refine hbody.onlyNames.weaken fun name hknows => ?_
  obtain ⟨meaning, hlookup⟩ := hknows
  cases meaning with
  | parameter type => exact Or.inl (mem_parameterNames_iff.mpr ⟨type, hlookup⟩)
  | function f =>
    obtain ⟨hf, rfl⟩ := mem_of_lookup hlookup
    exact Or.inr (List.mem_map_of_mem hf)

mutual

/-- A typing holds where all names stand for the same. -/
theorem HasType.transfer (hΓ : ∀ name, Γ.lookup name = Γ'.lookup name) : ∀ {e : Expr} {type : Ty},
    HasType R Γ e type → HasType R Γ' e type
  | _, _, .boolean => .boolean
  | _, _, .number => .number
  | _, _, .text => .text
  | _, _, .parameter found => .parameter (hΓ _ ▸ found)
  | _, _, .function allowed found shown => .function allowed (hΓ _ ▸ found) shown
  | _, _, .call found signature typed accepted =>
    .call (hΓ _ ▸ found) signature (typed.transfer hΓ) accepted
  | _, _, .not typed => .not (typed.transfer hΓ)
  | _, _, .negate typed => .negate (typed.transfer hΓ)
  | _, _, .and first second => .and (first.transfer hΓ) (second.transfer hΓ)
  | _, _, .or first second => .or (first.transfer hΓ) (second.transfer hΓ)
  | _, _, .arithmetic first second => .arithmetic (first.transfer hΓ) (second.transfer hΓ)
  | _, _, .compare first second => .compare (first.transfer hΓ) (second.transfer hΓ)
  | _, _, .equals first second same => .equals (first.transfer hΓ) (second.transfer hΓ) same
  | _, _, .concat first second joined => .concat (first.transfer hΓ) (second.transfer hΓ) joined
  | _, _, .conditional guard first second joined =>
    .conditional (guard.transfer hΓ) (first.transfer hΓ) (second.transfer hΓ) joined
  | _, _, .empty => .empty
  | _, _, .list typed joined => .list (typed.transfer hΓ) joined

theorem HaveTypes.transfer (hΓ : ∀ name, Γ.lookup name = Γ'.lookup name) : ∀ {es : List Expr}
    {types : List Ty}, HaveTypes R Γ es types → HaveTypes R Γ' es types
  | _, _, .nil => .nil
  | _, _, .cons first others => .cons (first.transfer hΓ) (others.transfer hΓ)

end

theorem BranchesHaveTypes.transfer (hΓ : ∀ name, Γ.lookup name = Γ'.lookup name)
    {branches : List Branch} {types : List Ty} (h : BranchesHaveTypes R Γ branches types) :
    BranchesHaveTypes R Γ' branches types := by
  induction h with
  | nil => exact .nil
  | cons guard action _ ih => exact .cons (guard.transfer hΓ) (action.transfer hΓ) ih

theorem BodyHasType.transfer (hΓ : ∀ name, Γ.lookup name = Γ'.lookup name) {body : Body}
    {type : Ty} (h : BodyHasType R Γ body type) : BodyHasType R Γ' body type := by
  cases h with
  | inline typed => exact .inline (typed.transfer hΓ)
  | piecewise guarded typed joined =>
    exact .piecewise (guarded.transfer hΓ) (typed.transfer hΓ) joined

/-- A function is in order in every program that finds the same functions. -/
theorem WellTyped.transfer {p q : Program} (hfind : ∀ name, p.find? name = q.find? name)
    {d : Declaration} (h : WellTyped R p d) : WellTyped R q d := by
  have hlookup : ∀ name, (environment p d).lookup name = (environment q d).lookup name := by
    intro name
    have hfunction : (environment p d).function? name = (environment q d).function? name :=
      hfind name
    unfold Environment.lookup
    rw [hfunction]
    rfl
  obtain ⟨type, hbody, hagrees⟩ := h.body
  exact ⟨h.distinct, type, hbody.transfer hlookup, hagrees⟩

end Piecewise.Typing
