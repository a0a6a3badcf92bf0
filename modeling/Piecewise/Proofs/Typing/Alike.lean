import Piecewise.Proofs.Program.Shared
import Piecewise.Typing.Infer

/-!
# Checkers that do alike

Two runs of the checker side by side, on states that need not be equal. They give the same answer
as long as every name that is looked up means the same to both and the visits that they make on the
way do alike too. What the states have in common is a relation that both runs must preserve; it is
a parameter here.
-/

namespace Piecewise.Typing

variable {α β : Type}

/-- The same answer, with related states left behind. -/
inductive SameOutcome (related : State → State → Prop) :
    EStateM.Result Diagnostic State α → EStateM.Result Diagnostic State α → Prop
  | ok (a : α) {s t : State} (h : related s t) : SameOutcome related (.ok a s) (.ok a t)
  | error (d : Diagnostic) {s t : State} (h : related s t) :
      SameOutcome related (.error d s) (.error d t)

theorem SameOutcome.weaken {related related' : State → State → Prop}
    {r r' : EStateM.Result Diagnostic State α} (h : SameOutcome related r r')
    (k : ∀ s t, related s t → related' s t) : SameOutcome related' r r' := by
  cases h with
  | ok a h => exact .ok a (k _ _ h)
  | error d h => exact .error d (k _ _ h)

/-- Two steps that give the same answer in related states, and leave related states. -/
def Alike (related : State → State → Prop) (step twin : Check α) : Prop :=
  ∀ s t, related s t → SameOutcome related (step s) (twin t)

namespace Alike

variable {related : State → State → Prop}

theorem pure (a : α) : Alike related (Pure.pure a) (Pure.pure a) :=
  fun _ _ h => .ok a h

theorem throw (d : Diagnostic) :
    Alike related (MonadExcept.throw d : Check α) (MonadExcept.throw d) :=
  fun _ _ h => .error d h

theorem bind {step twin : Check α} {next next' : α → Check β} (h : Alike related step twin)
    (k : ∀ a, Alike related (next a) (next' a)) :
    Alike related (step >>= next) (twin >>= next') := by
  intro s t hst
  have hfirst := h s t hst
  change SameOutcome related (EStateM.bind step next s) (EStateM.bind twin next' t)
  unfold EStateM.bind
  cases hstep : step s with
  | ok a u =>
    rw [hstep] at hfirst
    cases htwin : twin t with
    | ok b v =>
      rw [htwin] at hfirst
      cases hfirst with
      | ok _ huv => exact k a u v huv
    | error d v => rw [htwin] at hfirst; cases hfirst
  | error d u =>
    rw [hstep] at hfirst
    cases htwin : twin t with
    | ok b v => rw [htwin] at hfirst; cases hfirst
    | error d' v =>
      rw [htwin] at hfirst
      cases hfirst with
      | error _ huv => exact .error d huv

theorem lift (outcome : Except Diagnostic α) :
    Alike related (Typing.lift outcome) (Typing.lift outcome) := by
  cases outcome with
  | ok a => exact .pure a
  | error d => exact .throw d

/-- A comparison on which both go on or fail. -/
theorem ensure {c : Prop} [Decidable c] (a : α) (d : Diagnostic) :
    Alike related (if c then Pure.pure a else MonadExcept.throw d)
      (if c then Pure.pure a else MonadExcept.throw d) := by
  split
  · exact .pure a
  · exact .throw d

/-- One step after the other for the members of a list. -/
theorem forM {γ : Type} {step twin : γ → Check PUnit} {xs : List γ}
    (h : ∀ x ∈ xs, Alike related (step x) (twin x)) :
    Alike related (xs.forM step) (xs.forM twin) := by
  induction xs with
  | nil => exact .pure _
  | cons x xs ih =>
    exact .bind (h x List.mem_cons_self) fun _ => ih fun y hy => h y (List.mem_cons_of_mem _ hy)

end Alike

/-- A name with the same symbol in related states, where the two visits of the function that it
names do alike. -/
structure Understood (related : State → State → Prop) (visit visit' : Declaration → Check Unit)
    (name : String) : Prop where
  symbol : ∀ s t, related s t → s.scopes.resolve? name = t.scopes.resolve? name
  visits : ∀ s t, related s t → ∀ symbol ∈ s.scopes.resolve? name,
    ∀ d ∈ symbol.declaration?, Alike related (visit d) (visit' d)

section Expressions

variable {related : State → State → Prop} {visit visit' : Declaration → Check Unit}

/-- What is done with the symbol of a name is done with one that the name has in related states. -/
theorem resolve_alike {name : String} (hname : Understood related visit visit' name)
    (place : Position) {next next' : Symbol → Check α}
    (k : ∀ symbol, (∀ d ∈ symbol.declaration?, Alike related (visit d) (visit' d)) →
      Alike related (next symbol) (next' symbol)) :
    Alike related (resolve name place >>= next) (resolve name place >>= next') := by
  intro s t hst
  have hstep : ∀ (u : State) (next : Symbol → Check α), (resolve name place >>= next) u =
      EStateM.bind (lift (u.scopes.resolve name place)) next u := fun _ _ => rfl
  have hsame := hname.symbol s t hst
  rw [hstep, hstep, Scopes.resolve, Scopes.resolve, ← hsame]
  cases hsymbol : s.scopes.resolve? name with
  | none => exact .error _ hst
  | some symbol => exact k symbol (hname.visits s t hst symbol hsymbol) s t hst

theorem visitSymbol_alike {symbol : Symbol}
    (h : ∀ d ∈ symbol.declaration?, Alike related (visit d) (visit' d)) :
    Alike related (visitSymbol visit symbol) (visitSymbol visit' symbol) := by
  unfold visitSymbol
  split
  · exact .pure ()
  · cases hd : symbol.declaration? with
    | none => exact .pure ()
    | some d => exact h d hd

theorem calleeType_alike {callee : String} (hname : Understood related visit visit' callee)
    (place : Position) :
    Alike related (calleeType visit callee place) (calleeType visit' callee place) := by
  refine resolve_alike hname place fun symbol hvisits => ?_
  refine .bind (visitSymbol_alike hvisits) fun _ => ?_
  refine resolve_alike hname place fun found _ => ?_
  cases found.type with
  | function inputs output => exact .pure (inputs, output)
  | boolean | integer | real | text | list | unresolved => exact .throw _

theorem expecting_alike {found found' : Check Ty} (h : Alike related found found')
    (expected : Ty) (e : Expr) :
    Alike related (expecting expected e found) (expecting expected e found') :=
  .bind h fun _ => .ensure () _

mutual

/-- The types that two checkers find for an expression whose names both understand. -/
theorem infer_alike : ∀ e : Expr,
    OnlyNames (Understood related visit visit') e.identifiers e.calls →
    Alike related (infer visit e) (infer visit' e)
  | .boolean _ _, _ => .pure _
  | .number _ _, _ => .pure _
  | .text _ _, _ => .pure _
  | .identifier span name, h => by
    have hname := h.values name List.mem_cons_self
    exact resolve_alike hname span.start fun symbol _ => .pure symbol.type
  | .call span callee arguments, h => by
    have hcallee := h.callees ⟨callee, arguments⟩ List.mem_cons_self
    refine .bind (calleeType_alike hcallee span.start) fun found => ?_
    refine .bind (inferAll_alike arguments h.arguments) fun received => ?_
    exact .bind (.lift _) fun _ => .pure found.2
  | .unary _ .not operand, h =>
    .bind (expecting_alike (infer_alike operand h) _ operand) fun _ => .pure _
  | .unary _ .negate operand, h =>
    .bind (expecting_alike (infer_alike operand h) _ operand) fun _ => .pure _
  | .binary _ op left right, h => by
    have hleft := infer_alike left h.append.1
    have hright := infer_alike right h.append.2
    cases op with
    | or | and | arithmetic _ | compare _ =>
      refine .bind (expecting_alike hleft _ left) fun _ => ?_
      exact .bind (expecting_alike hright _ right) fun _ => .pure _
    | equals =>
      refine .bind hleft fun a => .bind hright fun b => ?_
      exact .ensure _ _
    | concat =>
      refine .bind hleft fun a => ?_
      split
      · exact .bind (.throw _) fun _ => .bind hright fun b => by
          cases a.joinLists b with
          | some type => exact .pure type
          | none => exact .throw _
      · refine .bind hright fun b => ?_
        cases a.joinLists b with
        | some type => exact .pure type
        | none => exact .throw _
  | .conditional _ condition whenTrue whenFalse, h => by
    obtain ⟨hcondition, hbranches⟩ := h.append
    refine .bind (expecting_alike (infer_alike condition hcondition) _ condition) fun _ => ?_
    refine .bind (infer_alike whenTrue hbranches.append.1) fun a => ?_
    exact .bind (infer_alike whenFalse hbranches.append.2) fun b => .lift _
  | .list _ [], _ => .pure _
  | .list _ (first :: rest), h => by
    refine .bind (infer_alike first h.append.1) fun type => ?_
    exact .bind (inferJoined_alike rest h.append.2 type) fun joined => .pure _

theorem inferAll_alike : ∀ es : List Expr,
    OnlyNames (Understood related visit visit') (Expr.identifiersAll es) (Expr.callsAll es) →
    Alike related (inferAll visit es) (inferAll visit' es)
  | [], _ => .pure _
  | e :: rest, h => by
    refine .bind (infer_alike e h.append.1) fun type => ?_
    exact .bind (inferAll_alike rest h.append.2) fun found => .pure _

theorem inferJoined_alike : ∀ es : List Expr,
    OnlyNames (Understood related visit visit') (Expr.identifiersAll es) (Expr.callsAll es) →
    ∀ type : Ty, Alike related (inferJoined visit type es) (inferJoined visit' type es)
  | [], _, type => .pure type
  | e :: rest, h, type => by
    refine .bind (infer_alike e h.append.1) fun received => ?_
    exact .bind (.lift _) fun joined => inferJoined_alike rest h.append.2 joined

end

theorem inferBranches_alike {branches : List Branch}
    (h : ∀ branch ∈ branches,
      OnlyNames (Understood related visit visit') branch.guard.identifiers branch.guard.calls ∧
      OnlyNames (Understood related visit visit') branch.action.identifiers
        branch.action.calls) :
    Alike related (inferBranches visit branches) (inferBranches visit' branches) := by
  induction branches with
  | nil => exact .pure _
  | cons branch rest ih =>
    obtain ⟨hguard, haction⟩ := h branch List.mem_cons_self
    refine .bind (expecting_alike (infer_alike _ hguard) _ _) fun _ => ?_
    refine .bind (infer_alike _ haction) fun type => ?_
    exact .bind (ih fun other hb => h other (List.mem_cons_of_mem _ hb)) fun found => .pure _

/-- The types that two checkers find for a body whose names both understand. -/
theorem inferBody_alike {body : Body}
    (h : OnlyNames (Understood related visit visit') body.identifiers body.calls) :
    Alike related (inferBody visit body) (inferBody visit' body) := by
  cases body with
  | inline value => exact infer_alike value (h.part List.mem_cons_self)
  | piecewise span branches otherwise =>
    refine .bind (inferBranches_alike fun branch hb => h.branch hb) fun guarded => ?_
    refine .bind (infer_alike otherwise h.otherwise) fun last => ?_
    cases guarded with
    | nil => exact .pure last
    | cons first rest => exact .lift _

end Expressions

end Piecewise.Typing
