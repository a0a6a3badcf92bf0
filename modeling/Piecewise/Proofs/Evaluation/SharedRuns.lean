import Piecewise.Proofs.Evaluation.Refinement
import Piecewise.Proofs.Program.Shared

/-!
# Runs in two programs that share names

A run looks nothing up but names: parameters in its environment and functions in the program. So
where two programs share every name that a run can come to, it is one run, step by step. It is
shown without scopes, where it is an equation, and holds with them for accepted programs.
-/

namespace Piecewise

namespace Stackless

/-- A name that two programs understand in an environment: bound there, or shared by them. -/
def Known (shared : String → Prop) (env : List Binding) (name : String) : Prop :=
  name ∈ env.map Binding.name ∨ shared name

section Expressions

variable {p q : Program} {shared : String → Prop} {env : List Binding} {mode : ListEquality}
  {invoke invoke' : Invoke}

theorem lookup_shared (hpq : Shared p q shared) {name : String} (hname : Known shared env name)
    (place : Position) : lookup p env name place = lookup q env name place := by
  unfold lookup
  cases hfound : env.find? fun b => b.name = name with
  | some b => rfl
  | none =>
    have hunbound : name ∉ env.map Binding.name := by
      simpa using hfound
    rw [hpq.same name (hname.resolve_left hunbound)]

/-- A function that is looked up goes by the name that is looked up, which is not bound. -/
theorem mem_of_lookup_shared {name : String} (hname : Known shared env name)
    {place : Position} {d : Declaration} (h : lookup p env name place = .ok (.function d)) :
    d ∈ p.declarations ∧ shared d.name := by
  unfold lookup at h
  split at h
  · cases h
  · rename_i hunbound
    split at h
    · rename_i f hf
      cases h
      obtain ⟨hmem, rfl⟩ := Program.mem_of_find? hf
      exact ⟨hmem, hname.resolve_left (by simpa using hunbound)⟩
    · cases h

def InvokesAlike (p : Program) (shared : String → Prop) (invoke invoke' : Invoke) : Prop :=
  ∀ callee place values, ∀ d ∈ p.declarations, shared d.name →
    invoke callee place d values = invoke' callee place d values

mutual

/-- An expression whose names two programs understand is evaluated alike in both. -/
theorem evaluate_shared (hpq : Shared p q shared) (hcalls : InvokesAlike p shared invoke invoke') :
    ∀ e : Expr, OnlyNames (Known shared env) e.identifiers e.calls →
      evaluate p mode invoke env e = evaluate q mode invoke' env e
  | .boolean _ _, _ => rfl
  | .number _ _, _ => rfl
  | .text _ _, _ => rfl
  | .identifier span name, h => by
    rw [evaluate, evaluate, lookup_shared hpq (h.values name List.mem_cons_self)]
  | .call span callee arguments, h => by
    have hcallee := h.callees ⟨callee, arguments⟩ List.mem_cons_self
    have harguments := evaluateArguments_shared hpq hcalls arguments h.arguments
    rw [evaluate, evaluate, harguments]
    cases hfound : lookup p env callee span.start with
    | error fault =>
      rw [lookup_shared hpq hcallee] at hfound
      rw [hfound]
      rfl
    | ok found =>
      have hfound' := hfound
      rw [lookup_shared hpq hcallee] at hfound'
      rw [hfound']
      cases found with
      | parameter b => rfl
      | function d =>
        obtain ⟨hd, hshared⟩ := mem_of_lookup_shared hcallee hfound
        have hinvoke : invoke callee span.start d = invoke' callee span.start d :=
          funext fun values => hcalls callee span.start values d hd hshared
        change evaluateArguments q mode invoke' env arguments >>= invoke callee span.start d = _
        rw [hinvoke]
        rfl
  | .unary _ .not operand, h => by
    rw [evaluate, evaluate, evaluate_shared hpq hcalls operand h]
  | .unary _ .negate operand, h => by
    rw [evaluate, evaluate, evaluate_shared hpq hcalls operand h]
  | .binary _ op left right, h => by
    rw [evaluate, evaluate, evaluate_shared hpq hcalls left h.append.1,
      evaluate_shared hpq hcalls right h.append.2]
  | .conditional _ condition whenTrue whenFalse, h => by
    obtain ⟨hcondition, hbranches⟩ := h.append
    rw [evaluate, evaluate, evaluate_shared hpq hcalls condition hcondition,
      evaluate_shared hpq hcalls whenTrue hbranches.append.1,
      evaluate_shared hpq hcalls whenFalse hbranches.append.2]
  | .list _ elements, h => by
    rw [evaluate, evaluate, evaluateElements_shared hpq hcalls elements h]

theorem evaluateArguments_shared (hpq : Shared p q shared)
    (hcalls : InvokesAlike p shared invoke invoke') : ∀ es : List Expr,
    OnlyNames (Known shared env) (Expr.identifiersAll es) (Expr.callsAll es) →
      evaluateArguments p mode invoke env es = evaluateArguments q mode invoke' env es
  | [], _ => rfl
  | e :: rest, h => by
    have hfirst := evaluate_shared hpq hcalls e h.append.1
    have hrest := evaluateArguments_shared hpq hcalls rest h.append.2
    cases e with
    | identifier span name =>
      have hname := h.append.1.values name List.mem_cons_self
      rw [evaluateArguments, evaluateArguments, hrest, lookup_shared hpq hname]
    | boolean | number | text | call | unary | binary | conditional | list =>
      rw [evaluateArguments, evaluateArguments, hrest, hfirst]
      all_goals simp

theorem evaluateElements_shared (hpq : Shared p q shared)
    (hcalls : InvokesAlike p shared invoke invoke') : ∀ es : List Expr,
    OnlyNames (Known shared env) (Expr.identifiersAll es) (Expr.callsAll es) →
      evaluateElements p mode invoke env es = evaluateElements q mode invoke' env es
  | [], _ => rfl
  | e :: rest, h => by
    rw [evaluateElements, evaluateElements, evaluate_shared hpq hcalls e h.append.1,
      evaluateElements_shared hpq hcalls rest h.append.2]

end

theorem evaluateBranches_shared (hpq : Shared p q shared)
    (hcalls : InvokesAlike p shared invoke invoke') {otherwise : Expr}
    (ho : OnlyNames (Known shared env) otherwise.identifiers otherwise.calls)
    {branches : List Branch}
    (hb : ∀ branch ∈ branches,
      OnlyNames (Known shared env) branch.guard.identifiers branch.guard.calls ∧
      OnlyNames (Known shared env) branch.action.identifiers branch.action.calls) :
    evaluateBranches p mode invoke env otherwise branches =
      evaluateBranches q mode invoke' env otherwise branches := by
  induction branches with
  | nil => exact evaluate_shared hpq hcalls otherwise ho
  | cons branch rest ih =>
    obtain ⟨hguard, haction⟩ := hb branch List.mem_cons_self
    have hrest := ih fun other hmem => hb other (List.mem_cons_of_mem _ hmem)
    rw [evaluateBranches, evaluateBranches, hrest, evaluate_shared hpq hcalls _ hguard,
      evaluate_shared hpq hcalls _ haction]

theorem evaluateBody_shared (hpq : Shared p q shared)
    (hcalls : InvokesAlike p shared invoke invoke') {body : Body}
    (h : OnlyNames (Known shared env) body.identifiers body.calls) :
    evaluateBody p mode invoke env body = evaluateBody q mode invoke' env body := by
  cases body with
  | inline value => exact evaluate_shared hpq hcalls value (h.part List.mem_cons_self)
  | piecewise span branches otherwise =>
    exact evaluateBranches_shared hpq hcalls h.otherwise fun branch hb => h.branch hb

end Expressions

section Runs

variable {p q : Program} {shared : String → Prop}

theorem names_bindings : ∀ (qs : List Param) (values : List Value),
    (bindings qs values).map Binding.name = qs.map Param.name := by
  intro qs
  induction qs with
  | nil => intro values; rfl
  | cons q qs ih =>
    intro values
    cases values with
    | nil => rw [bindings, List.map_cons, List.map_cons, ih]
    | cons v values => rw [bindings, List.map_cons, List.map_cons, ih]

/-- In the environment of a shared function every name of its body is understood. -/
theorem known_body (hpq : Shared p q shared) {d : Declaration} (hd : d ∈ p.declarations)
    (hshared : shared d.name) (values : List Value) :
    OnlyNames (Known shared (bindings d.parameters values)) d.body.identifiers d.body.calls := by
  have honly := hpq.closed d hd hshared
  unfold Known
  rw [names_bindings]
  exact honly

theorem runBody_shared (hpq : Shared p q shared) (mode : ListEquality) :
    ∀ (depth : Nat) (env : List Binding) (body : Body),
      OnlyNames (Known shared env) body.identifiers body.calls →
      runBody p mode depth env body = runBody q mode depth env body := by
  intro depth
  induction depth with
  | zero => intro env body _; rfl
  | succ depth ih =>
    intro env body h
    rw [runBody, runBody]
    refine evaluateBody_shared hpq (fun callee place values d hd hshared => ?_) h
    cases Builtin.ofName? d.name with
    | some b => rfl
    | none => rw [ih _ _ (known_body hpq hd hshared values)]

/-- A function that two programs share runs alike in both. -/
theorem runEntry_shared (hpq : Shared p q shared) {d : Declaration} (hd : d ∈ p.declarations)
    (hshared : shared d.name) (mode : ListEquality) (depth : Nat) :
    runEntry p mode depth d = runEntry q mode depth d :=
  runBody_shared hpq mode depth _ d.body (known_body hpq hd hshared [])

end Runs

end Stackless

namespace Evaluation

/-- A function of an accepted program does in its scopes what it does without any. -/
theorem runEntry_refines {p : Program} {checked : Scopes} (h : p.Accepted checked)
    {d : Declaration} (hd : d ∈ p.declarations) (mode : ListEquality) (depth : Nat) :
    Refines checked (runEntry mode depth d) (Stackless.runEntry p mode depth d) := by
  obtain ⟨_, rfl, htyped⟩ := Typing.typed_of_accepted h
  have hdistinct : ∀ f ∈ p.declarations, f.parameterNames.Nodup :=
    fun f hf => (htyped f hf).distinct
  exact inFrame_refines (hdistinct d hd) (runBody_refines hdistinct depth _ d.body)

/-- A function that two accepted programs share runs alike in the scopes of both. -/
theorem runEntry_shared {p q : Program} {shared : String → Prop} (hpq : Shared p q shared)
    {checked checked' : Scopes} (h : p.Accepted checked) (h' : q.Accepted checked')
    {d : Declaration} (hd : d ∈ p.declarations) (hd' : d ∈ q.declarations)
    (hshared : shared d.name) (mode : ListEquality) (depth : Nat) :
    withoutScopes (runEntry mode depth d (.initial checked)) =
      withoutScopes (runEntry mode depth d (.initial checked')) := by
  have hleft := (runEntry_refines h hd mode depth (.initial checked) rfl).1
  have hright := (runEntry_refines h' hd' mode depth (.initial checked') rfl).1
  rw [← hleft, ← hright, Stackless.runEntry_shared hpq hd hshared]
  rfl

end Evaluation

end Piecewise
