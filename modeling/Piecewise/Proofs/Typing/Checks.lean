import Piecewise.Proofs.Typing.Rules
import Piecewise.Typing.Infer

/-!
# The checks behind the rules

What the checker compares and looks up, in the words of the rules: a name means the same to the
checker in the frame of a function as to the rules in its environment, and the comparisons of
types and of arguments succeed exactly where the rules ask for it. Steps in a row succeed where
every one of them does.
-/

namespace Piecewise

namespace Typing

section Lookup

variable {p : Program} {d : Declaration} {name : String}

theorem get?_frame (p : Program) (d : Declaration) (name : String) :
    d.frame.get? name =
      ((environment p d).parameter? name).map (Symbol.parameter name) := by
  unfold Declaration.frame Scope.get? Environment.parameter? environment Declaration.inputs
  rw [List.find?_map, List.find?_map, Option.map_map, Option.map_map]
  have hfind : (fun symbol : Symbol => decide (symbol.name = name)) ∘
      (fun q : Param => Symbol.parameter q.name q.type.toTy) =
      (fun q : Parameter Ty => decide (q.name = name)) ∘
        fun q : Param => (⟨q.name, q.type.toTy⟩ : Parameter Ty) := rfl
  rw [hfind]
  cases h : d.parameters.find? _ with
  | none => rfl
  | some q =>
    have hq : q.name = name := by simpa using List.find?_some h
    simp [hq]

/-- The symbol of what a name stands for, where the given functions have their type. -/
def Meaning.symbol (resolved : List String) (name : String) : Meaning → Symbol
  | parameter type => .parameter name type
  | function d => if name ∈ resolved then .ofSignature d else .ofDeclaration d

theorem Meaning.declaration?_symbol (resolved : List String) (name : String) (f : Declaration) :
    ((function f).symbol resolved name).declaration? = some f := by
  by_cases h : name ∈ resolved
  · simp only [symbol, if_pos h]; rfl
  · simp only [symbol, if_neg h]; rfl

theorem Meaning.type_symbol (resolved : List String) (name : String) (f : Declaration) :
    ((function f).symbol resolved name).type =
      if name ∈ resolved then f.signature else .unresolved := by
  by_cases h : name ∈ resolved
  · simp only [symbol, if_pos h]; rfl
  · simp only [symbol, if_neg h]; rfl

/-- A name means the same in the frame of a function as in its environment. -/
theorem resolve?_globals (p : Program) (d : Declaration) (resolved : List String)
    (name : String) :
    (⟨p.globals resolved, [d.frame]⟩ : Scopes).resolve? name =
      ((environment p d).lookup name).map (Meaning.symbol resolved name) := by
  rw [Scopes.resolve?_frame, get?_frame p, Program.get?_globals]
  unfold Environment.lookup
  cases (environment p d).parameter? name with
  | some type => rfl
  | none =>
    change Option.map _ (p.find? name) = Option.map _ (Option.map _ (p.find? name))
    rw [Option.map_map]
    rfl

/-- Names are resolved to what they stand for, and nothing changes. -/
theorem resolve_of_lookup {resolved : List String} {s : State}
    (hs : s.scopes = ⟨p.globals resolved, [d.frame]⟩) {meaning : Meaning}
    (h : (environment p d).lookup name = some meaning) (place : Position) :
    resolve name place s = .ok (meaning.symbol resolved name) s := by
  have hstep : resolve name place s = lift (s.scopes.resolve name place) s := rfl
  rw [hstep, hs, Scopes.resolve, resolve?_globals, h]
  rfl

theorem mem_of_lookup {f : Declaration}
    (h : (environment p d).lookup name = some (.function f)) :
    f ∈ p.declarations ∧ f.name = name := by
  unfold Environment.lookup at h
  split at h
  · cases h
  · obtain ⟨g, hg, heq⟩ := Option.map_eq_some_iff.mp h
    cases heq
    exact Program.mem_of_find? hg

/-- A name that stands for a parameter is one of its function. -/
theorem mem_parameterNames_iff :
    name ∈ d.parameterNames ↔ ∃ type, (environment p d).lookup name = some (.parameter type) := by
  have hnone : (environment p d).parameter? name = none ↔ name ∉ d.parameterNames := by
    simp [Environment.parameter?, environment, Declaration.inputs, Declaration.parameterNames]
  unfold Environment.lookup
  cases h : (environment p d).parameter? name with
  | some type =>
    have hmem : name ∈ d.parameterNames := by
      by_contra hmem
      rw [hnone.mpr hmem] at h
      cases h
    simp [hmem]
  | none => simp [hnone.mp h]

end Lookup

section Steps

variable {α β : Type} {s t : State}

/-- A sequence succeeds when its first step does and the next one does after it. -/
theorem bind_eq_ok_iff {step : Check α} {next : α → Check β} {b : β} :
    (step >>= next) s = .ok b t ↔ ∃ a u, step s = .ok a u ∧ next a u = .ok b t := by
  show EStateM.bind step next s = .ok b t ↔ _
  unfold EStateM.bind
  cases step s with
  | ok a u => simp
  | error d u => simp

/-- A sequence fails when its first step does, or the next one does after it. -/
theorem bind_eq_error_iff {step : Check α} {next : α → Check β} {fault : Diagnostic} :
    (step >>= next) s = .error fault t ↔ step s = .error fault t ∨
      ∃ a u, step s = .ok a u ∧ next a u = .error fault t := by
  show EStateM.bind step next s = .error fault t ↔ _
  unfold EStateM.bind
  cases step s with
  | ok a u => simp
  | error d u => simp

theorem pure_eq_ok_iff {a b : α} : (pure a : Check α) s = .ok b t ↔ a = b ∧ s = t := by
  show EStateM.Result.ok a s = .ok b t ↔ _
  simp

theorem lift_eq_ok_iff {outcome : Except Diagnostic α} {a : α} :
    lift outcome s = .ok a t ↔ outcome = .ok a ∧ s = t := by
  cases outcome with
  | ok b =>
    show EStateM.Result.ok b s = .ok a t ↔ _
    simp
  | error d =>
    show EStateM.Result.error d s = .ok a t ↔ _
    simp

end Steps

theorem joinAt_eq_ok_iff {a b type : Ty} {place : Position} :
    joinAt a b place = .ok type ↔ a.join b = some type := by
  unfold joinAt
  cases a.join b <;> simp

theorem joinAll_eq_ok_iff {last : Ty} : ∀ {found : List (Ty × Position)} {type : Ty},
    joinAll type found = .ok last ↔ (found.map Prod.fst).foldlM Ty.join type = some last := by
  intro found
  induction found with
  | nil => intro type; simp [joinAll, pure]
  | cons next found ih =>
    intro type
    obtain ⟨a, place⟩ := next
    simp only [joinAll, List.map_cons, List.foldlM_cons, joinAt]
    cases type.join a with
    | none => simp [bind, Except.bind]
    | some joined => simpa [bind, Except.bind] using ih

theorem checkKinds_eq_ok_iff {callee : String} : ∀ {inputs : List (Parameter Ty)}
    {found : List (Ty × Position)} {index : Nat}, found.length = inputs.length →
    (checkKinds callee index inputs found = .ok () ↔
      List.Forall₂ (fun input type => input.type.sameKind type = true) inputs
        (found.map Prod.fst)) := by
  intro inputs
  induction inputs with
  | nil =>
    intro found index hlength
    have hnil : found = [] := List.eq_nil_of_length_eq_zero hlength
    subst hnil
    simp [checkKinds]
  | cons input inputs ih =>
    intro found index hlength
    cases found with
    | nil => simp at hlength
    | cons next found =>
      obtain ⟨type, place⟩ := next
      have hrest : found.length = inputs.length := by simpa using hlength
      rw [checkKinds, List.map_cons, List.forall₂_cons]
      split
      · rename_i hkind
        rw [ih hrest]
        simp [hkind]
      · rename_i hkind
        simp [hkind]

/-- Arguments are accepted exactly where there is one for each parameter, of its kind. -/
theorem checkArguments_eq_ok_iff {callee : String} {place : Position}
    {inputs : List (Parameter Ty)} {found : List (Ty × Position)} :
    checkArguments callee place inputs found = .ok () ↔
      List.Forall₂ (fun input type => input.type.sameKind type = true) inputs
        (found.map Prod.fst) := by
  unfold checkArguments
  split
  · rename_i hlength
    exact checkKinds_eq_ok_iff hlength
  · rename_i hlength
    constructor
    · intro h; cases h
    · intro h
      exact absurd (by simpa using h.length_eq.symm) hlength

end Typing

end Piecewise
