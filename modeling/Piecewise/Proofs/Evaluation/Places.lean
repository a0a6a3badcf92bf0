import Piecewise.Evaluation.Program
import Piecewise.Proofs.Scope.Places

/-!
# Where a run points

Every fault of a run points at the start of an expression or of a parameter. Only declarations that
are in scope are called, and a run brings no declaration into scope: what is declared in a frame is
a parameter, which may have a function as its value and yet cannot be called.
-/

namespace Piecewise.Evaluation

open Piecewise.Span

variable {S : Position → Prop}

/-- What a run that has no value points at, unless calls nest too deeply. -/
def Halt.PointsAt (S : Position → Prop) : Halt → Prop
  | .fault d => d.PointsAt S
  | .tooDeep => True

/-- From scopes in which declarations have their nodes at places of the given sort, a step leaves
such scopes and has a result that is as asked for, or it has a fault at such a place. -/
abbrev Located {α : Type} (S : Position → Prop) (step : Eval α) (Q : α → Prop) : Prop :=
  Upholds (fun s => s.scopes.Every (Symbol.HoldsAt S)) (Halt.PointsAt S) step Q

namespace Located

variable {α β : Type} {Q : α → Prop}

theorem fail {fault : Fault} {place : Position} (h : S place) :
    Located S (Evaluation.fail fault place) Q := Upholds.throw ⟨place, rfl, h⟩

theorem lift {outcome : Except Diagnostic α} (h : Gives (·.PointsAt S) outcome Q) :
    Located S (Evaluation.lift outcome) Q := by
  cases outcome with
  | ok a => exact Upholds.pure h
  | error d => exact Upholds.throw h

theorem resolve (name : String) {place : Position} (hplace : S place) :
    Located S (Evaluation.resolve name place) (Symbol.HoldsAt S) :=
  Upholds.get.bind fun _ hs => lift (Scopes.resolve_gives hs name hplace)

theorem newList (elements : List Value) :
    Located S (Evaluation.newList elements) fun _ => True :=
  fun _ hs => ⟨hs, trivial⟩

/-- A step in a frame of its own. -/
theorem inFrame {step : Eval α} (h : Located S step Q) :
    Located S (Evaluation.inFrame step) Q := by
  intro s hs
  have hstep := h { s with scopes := s.scopes.enterFrame.2 } hs.enterFrame
  unfold Yields Evaluation.inFrame at *
  cases hend : step { s with scopes := s.scopes.enterFrame.2 } with
  | ok a t =>
    rw [hend] at hstep
    simp only [Scopes.enterFrame] at hend ⊢
    rw [hend]
    exact ⟨hstep.1.leaveFrame hs, hstep.2⟩
  | error halt t =>
    rw [hend] at hstep
    simp only [Scopes.enterFrame] at hend ⊢
    rw [hend]
    exact hstep

end Located

section Operations

variable {place : Position}

theorem equal_gives (mode : ListEquality) (v w : Value) (hplace : S place) :
    Gives (·.PointsAt S) (Value.equal mode place v w) fun _ => True := by
  unfold Value.equal
  split
  · trivial
  · exact ⟨place, rfl, hplace⟩
  · exact ⟨place, rfl, hplace⟩
  · trivial

theorem apply_gives (b : Builtin) (fresh : Nat) (values : List Value) (hplace : S place) :
    Gives (·.PointsAt S) (b.apply fresh values place) fun _ => True := by
  unfold Builtin.apply
  split
  · trivial
  · exact ⟨place, rfl, hplace⟩
  · trivial
  · trivial
  · exact ⟨place, rfl, hplace⟩
  · exact ⟨place, rfl, hplace⟩

end Operations

section Expressions

/-- A call at a place of the given sort of a declaration with its nodes at such places has no fault
elsewhere. -/
def CallsLocated (S : Position → Prop) (call : Call) : Prop :=
  ∀ callee place d values, S place → d.Nodes (StartsAt S) →
    Located S (call callee place d values) fun _ => True

variable {mode : ListEquality} {call : Call} {e : Expr} {value : Eval Value}

theorem asBoolean_located (he : e.Nodes (StartsAt S)) (h : Located S value fun _ => True) :
    Located S (asBoolean e value) fun _ => True := by
  refine h.bind fun v _ => ?_
  cases v with
  | boolean b => exact Upholds.pure trivial
  | _ => exact Located.fail he.start

theorem asReal_located (he : e.Nodes (StartsAt S)) (h : Located S value fun _ => True) :
    Located S (asReal e value) fun _ => True := by
  refine h.bind fun v _ => ?_
  cases v with
  | real x => exact Upholds.pure trivial
  | _ => exact Located.fail he.start

theorem asList_located (he : e.Nodes (StartsAt S)) (h : Located S value fun _ => True) :
    Located S (asList e value) fun _ => True := by
  refine h.bind fun v _ => ?_
  cases v with
  | list i elements => exact Upholds.pure trivial
  | _ => exact Located.fail he.start

theorem calleeOf_located (callee : String) {place : Position} (hplace : S place) :
    Located S (calleeOf callee place) fun d => d.Nodes (StartsAt S) := by
  refine (Located.resolve callee hplace).bind fun symbol hsymbol => ?_
  cases hd : symbol.declaration? with
  | some d => exact Upholds.pure (hsymbol d hd)
  | none => exact Located.fail hplace

theorem valueOf_located (name : String) {place : Position} (hplace : S place) :
    Located S (valueOf name place) fun _ => True := by
  refine (Located.resolve name hplace).bind fun symbol _ => ?_
  split
  · exact Upholds.pure trivial
  · exact Upholds.pure trivial
  · exact Located.fail hplace

theorem argument_located (he : e.Nodes (StartsAt S)) (h : Located S value fun _ => True) :
    Located S (argument e value) fun _ => True := by
  unfold argument
  split
  · refine (Located.resolve _ he.start).bind fun symbol _ => ?_
    split
    · exact Upholds.pure trivial
    · exact h
  · exact h

mutual

/-- Every fault of evaluating an expression points at one of its nodes, or at one of a declaration
in scope. -/
theorem evaluate_located (hc : CallsLocated S call) : ∀ {e : Expr}, e.Nodes (StartsAt S) →
    Located S (evaluate mode call e) fun _ => True
  | .boolean _ _, _ | .number _ _, _ | .text _ _, _ => Upholds.pure trivial
  | .identifier _ name, .identifier h => valueOf_located name h
  | .call _ callee _, .call h harguments => by
    refine (calleeOf_located callee h).bind fun d hd => ?_
    exact (evaluateArguments_located hc harguments).bind fun values _ => hc callee _ d values h hd
  | .unary _ .not _, .unary _ h =>
    (asBoolean_located h (evaluate_located hc h)).bind fun _ _ => Upholds.pure trivial
  | .unary _ .negate _, .unary _ h =>
    (asReal_located h (evaluate_located hc h)).bind fun _ _ => Upholds.pure trivial
  | .binary _ op _ _, .binary hspan hleft hright => by
    have hfirst := evaluate_located hc hleft
    have hsecond := evaluate_located hc hright
    cases op with
    | and | or =>
      refine (asBoolean_located hleft hfirst).bind fun _ _ => ?_
      exact (asBoolean_located hright hsecond).bind fun _ _ => Upholds.pure trivial
    | compare _ | arithmetic _ =>
      refine (asReal_located hleft hfirst).bind fun _ _ => ?_
      exact (asReal_located hright hsecond).bind fun _ _ => Upholds.pure trivial
    | concat =>
      refine (asList_located hleft hfirst).bind fun _ _ => ?_
      exact (asList_located hright hsecond).bind fun _ _ => Located.newList _
    | equals =>
      refine hfirst.bind fun a _ => hsecond.bind fun b _ => ?_
      exact (Located.lift (equal_gives mode a b hspan)).bind fun _ _ => Upholds.pure trivial
  | .conditional _ _ _ _, .conditional _ hcondition htrue hfalse => by
    refine (asBoolean_located hcondition (evaluate_located hc hcondition)).bind fun test _ => ?_
    cases test with
    | true => exact evaluate_located hc htrue
    | false => exact evaluate_located hc hfalse
  | .list _ _, .list _ helements =>
    (evaluateElements_located hc helements).bind fun _ _ => Located.newList _

theorem evaluateArguments_located (hc : CallsLocated S call) : ∀ {es : List Expr},
    (∀ e ∈ es, e.Nodes (StartsAt S)) →
    Located S (evaluateArguments mode call es) fun _ => True
  | [], _ => Upholds.pure trivial
  | e :: rest, h => by
    obtain ⟨he, hrest⟩ := List.forall_mem_cons.mp h
    refine (argument_located he (evaluate_located hc he)).bind fun _ _ => ?_
    exact (evaluateArguments_located hc hrest).bind fun _ _ => Upholds.pure trivial

theorem evaluateElements_located (hc : CallsLocated S call) : ∀ {es : List Expr},
    (∀ e ∈ es, e.Nodes (StartsAt S)) →
    Located S (evaluateElements mode call es) fun _ => True
  | [], _ => Upholds.pure trivial
  | e :: rest, h => by
    obtain ⟨he, hrest⟩ := List.forall_mem_cons.mp h
    refine (evaluate_located hc he).bind fun _ _ => ?_
    exact (evaluateElements_located hc hrest).bind fun _ _ => Upholds.pure trivial

end

theorem evaluateBranches_located (hc : CallsLocated S call) {otherwise : Expr}
    (hotherwise : otherwise.Nodes (StartsAt S)) {branches : List Branch}
    (h : ∀ b ∈ branches, b.Nodes (StartsAt S)) :
    Located S (evaluateBranches mode call otherwise branches) fun _ => True := by
  induction branches with
  | nil => exact evaluate_located hc hotherwise
  | cons branch rest ih =>
    obtain ⟨⟨_, hguard, haction⟩, hrest⟩ := List.forall_mem_cons.mp h
    refine (asBoolean_located hguard (evaluate_located hc hguard)).bind fun test _ => ?_
    cases test with
    | true => exact evaluate_located hc haction
    | false => exact ih hrest

theorem evaluateBody_located (hc : CallsLocated S call) {body : Body}
    (h : body.Nodes (StartsAt S)) : Located S (evaluateBody mode call body) fun _ => True := by
  cases h with
  | inline hvalue => exact evaluate_located hc hvalue
  | piecewise _ hbranches hotherwise => exact evaluateBranches_located hc hotherwise hbranches

end Expressions

section Calls

variable {mode : ListEquality}

theorem declareParameters_located {qs : List Param} (h : ∀ q ∈ qs, q.Nodes (StartsAt S)) :
    Located S (declareParameters qs) fun _ => True := by
  induction qs with
  | nil => exact Upholds.pure trivial
  | cons q qs ih =>
    obtain ⟨hq, hrest⟩ := List.forall_mem_cons.mp h
    refine Upholds.get.bind fun s hs => ?_
    have hparameter : (Symbol.parameter q.name q.type.toTy).HoldsAt S :=
      Symbol.holdsAt_of_role rfl
    refine (Located.lift (Scopes.declare_gives hs hparameter hq.node)).bind fun scopes hscopes => ?_
    exact Upholds.bind (Upholds.set hscopes) fun _ _ => ih hrest

theorem bindParameters_located {qs : List Param} (h : ∀ q ∈ qs, q.Nodes (StartsAt S))
    (values : List Value) : Located S (bindParameters qs values) fun _ => True := by
  refine (declareParameters_located h).bind fun _ _ => ?_
  intro s hs
  exact ⟨hs.setCurrent (hs.current.bind values fun _ value => Symbol.HoldsAt.bind value), trivial⟩

theorem applyBuiltin_located (b : Builtin) (values : List Value) {place : Position}
    (hplace : S place) : Located S (applyBuiltin b values place) fun _ => True := by
  refine Upholds.get.bind fun s hs => ?_
  refine (Located.lift (apply_gives b s.allocated values hplace)).bind fun value _ => ?_
  exact Upholds.bind (Upholds.set hs) fun _ _ => Upholds.pure trivial

theorem callWith_located {run : Body → Eval Value}
    (hrun : ∀ body, body.Nodes (StartsAt S) → Located S (run body) fun _ => True) :
    CallsLocated S (callWith run) := by
  intro callee place d values hplace hd
  have hcount : Located S (modify fun s => { s with calls := callee :: s.calls }) fun _ => True :=
    fun _ hs => ⟨hs, trivial⟩
  refine hcount.bind fun _ _ => Located.inFrame ?_
  refine (bindParameters_located hd.parameters values).bind fun _ _ => ?_
  split
  · exact applyBuiltin_located _ values hplace
  · exact hrun d.body hd.body

theorem runBody_located (depth : Nat) :
    ∀ body, body.Nodes (StartsAt S) → Located S (runBody mode depth body) fun _ => True := by
  induction depth with
  | zero => exact fun _ _ => Upholds.throw trivial
  | succ depth ih => exact fun _ h => evaluateBody_located (callWith_located ih) h

/-- Every fault of running an entry function points at one of its nodes, or at one of a declaration
in scope. -/
theorem runEntry_located (depth : Nat) {d : Declaration} (hd : d.Nodes (StartsAt S)) :
    Located S (runEntry mode depth d) fun _ => True := by
  refine Located.inFrame ?_
  refine (bindParameters_located hd.parameters []).bind fun _ _ => ?_
  exact runBody_located depth d.body hd.body

end Calls

end Piecewise.Evaluation
