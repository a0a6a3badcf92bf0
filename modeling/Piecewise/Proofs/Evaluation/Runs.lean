import Piecewise.Proofs.Evaluation.Contract
import Piecewise.Proofs.Evaluation.Discipline
import Piecewise.Proofs.Evaluation.Frames
import Piecewise.Proofs.Typing.Checks

/-!
# Runs of typed programs

A run of a program whose functions are in order by some rules keeps to every discipline for these
rules: expressions by induction on their form, bodies by induction on the depth. Along the way
every call has a value for each parameter: what would be done elsewhere makes no difference.
-/

namespace Piecewise

namespace Evaluation

open Typing

/-- Calls made by the first rule where there is a value for each parameter, and by the second
everywhere else. -/
def guardedCall (call other : Call) : Call := fun callee place d values =>
  if values.length = d.parameters.length then call callee place d values
  else other callee place d values

def runBodyGuarded (other : Call) (mode : ListEquality) : Nat → Body → Eval Value
  | 0, _ => throw .tooDeep
  | depth + 1, body =>
    evaluateBody mode (guardedCall (callWith (runBodyGuarded other mode depth)) other) body

def runEntryGuarded (other : Call) (mode : ListEquality) (depth : Nat) (d : Declaration) :
    Eval Value :=
  inFrame do
    bindParameters d.parameters []
    runBodyGuarded other mode depth d.body

section Expressions

variable {R : Rules} {p : Program} {D : Discipline R p} {d : Declaration} {frame : Scope}

/-- A frame of a function in which the values of the parameters fit. -/
def Discipline.Frame (D : Discipline R p) (d : Declaration) (frame : Scope) : Prop :=
  BoundFrame D.fits D.unbound d frame

/-- Two steps in a frame that do the same and keep to a discipline. -/
def Discipline.Keeps {α : Type} (D : Discipline R p) (frame : Scope) (step twin : Eval α)
    (Q : α → Prop) : Prop :=
  Meets ⟨p.signatures, [frame]⟩ D.allows step twin Q

/-- Calls that keep to a discipline where the values of the arguments do. -/
def Discipline.KeepsCalls (D : Discipline R p) (call call' : Call) : Prop :=
  ∀ frame callee place f values, f ∈ p.declarations →
    List.Forall₂ (fun v input => D.fits v input.type) values f.inputs →
    D.Keeps frame (call callee place f values) (call' callee place f values) (D.fits · f.output)

theorem asBoolean_keeps {e : Expr} {step twin : Eval Value}
    (h : D.Keeps frame step twin (D.fits · .boolean)) :
    D.Keeps frame (asBoolean e step) (asBoolean e twin) fun _ => True := by
  refine .bind h fun v hv => ?_
  rcases D.ofBoolean v hv with ⟨b, rfl⟩ | hallowed
  · exact .pure trivial
  · cases v with
    | boolean b => exact .pure trivial
    | real | text | list | function | type => exact .fail hallowed

theorem asReal_keeps {e : Expr} {step twin : Eval Value}
    (h : D.Keeps frame step twin (D.fits · .real)) :
    D.Keeps frame (asReal e step) (asReal e twin) fun _ => True := by
  refine .bind h fun v hv => ?_
  rcases D.ofReal v hv with ⟨x, rfl⟩ | hallowed
  · exact .pure trivial
  · cases v with
    | real x => exact .pure trivial
    | boolean | text | list | function | type => exact .fail hallowed

theorem asList_keeps {e : Expr} {step twin : Eval Value} {element : Ty}
    (h : D.Keeps frame step twin (D.fits · (.list element))) :
    D.Keeps frame (asList e step) (asList e twin) fun elements =>
      ∃ i, D.fits (.list i elements) (.list element) := by
  refine .bind h fun v hv => ?_
  cases v with
  | list i elements => exact .pure ⟨i, hv⟩
  | boolean | real | text | function | type =>
    rcases D.ofList _ element hv with ⟨i, elements, heq⟩ | hallowed
    · cases heq
    · exact .fail hallowed

theorem calleeOf_keeps (hframe : D.Frame d frame) {callee : String} {place : Position}
    {meaning : Meaning} {inputs : List (Parameter Ty)} {output : Ty}
    (hlookup : (environment p d).lookup callee = some meaning)
    (hsignature : meaning.type = .function inputs output) :
    D.Keeps frame (calleeOf callee place) (calleeOf callee place) fun f =>
      f ∈ p.declarations ∧ f.inputs = inputs ∧ f.output = output := by
  cases meaning with
  | parameter type =>
    obtain ⟨_, hresolve, hslot⟩ := resolve?_parameter hframe hlookup
    refine .bind (.resolve hresolve) ?_
    rintro symbol rfl
    rw [hslot.declaration?]
    refine .fail ?_
    cases hvalue : symbol.value with
    | some v =>
      have hv := hslot.fitting v hvalue
      change type = .function inputs output at hsignature
      subst hsignature
      exact D.functionCalled v inputs output callee hv
    | none => exact D.unboundFunction (hslot.missing hvalue) callee
  | function f =>
    obtain ⟨hf, hresolve⟩ := resolve?_function hframe hlookup
    refine .bind (.resolve hresolve) ?_
    rintro _ rfl
    cases hsignature
    exact .pure ⟨hf, rfl, rfl⟩

theorem valueOf_keeps (hframe : D.Frame d frame) {name : String} {span : Span} {type : Ty}
    (h : HasType R (environment p d) (.identifier span name) type) (place : Position) :
    D.Keeps frame (valueOf name place) (valueOf name place) (D.fits · type) := by
  cases h with
  | parameter found =>
    obtain ⟨_, hresolve, hslot⟩ := resolve?_parameter hframe found
    refine .bind (.resolve hresolve) ?_
    rintro symbol rfl
    rw [hslot.declaration?]
    cases hvalue : symbol.value with
    | some v => exact .pure (hslot.fitting v hvalue)
    | none => exact .fail (D.unboundIdentifier (hslot.missing hvalue) name)
  | function allowed found shown =>
    obtain ⟨_, hresolve⟩ := resolve?_function hframe found
    refine .bind (.resolve hresolve) ?_
    rintro _ rfl
    exact .pure (D.functionValue allowed _ type)

/-- An argument is the value of its expression, or a type where there is no value. -/
theorem argument_keeps (hframe : D.Frame d frame) {e : Expr} {type : Ty} {step twin : Eval Value}
    (h : HasType R (environment p d) e type) (hvalue : D.Keeps frame step twin (D.fits · type)) :
    D.Keeps frame (argument e step) (argument e twin) (D.fits · type) := by
  cases h with
  | parameter found =>
    obtain ⟨_, hresolve, hslot⟩ := resolve?_parameter hframe found
    refine .bind (.resolve hresolve) ?_
    rintro symbol rfl
    split
    · rename_i hunbound
      refine .pure ?_
      rw [hslot.type]
      refine D.typeValue (hslot.missing ?_) type
      rw [Symbol.isUnbound, Bool.and_eq_true] at hunbound
      exact Option.isNone_iff_eq_none.mp hunbound.1
    · exact hvalue
  | function allowed found shown =>
    obtain ⟨_, hresolve⟩ := resolve?_function hframe found
    refine .bind (.resolve hresolve) ?_
    rintro _ rfl
    exact hvalue
  | boolean | number | text | call | not | negate | and | or | arithmetic | compare | equals
    | concat | conditional | empty | list => exact hvalue

variable {call call' : Call} {mode : ListEquality}

mutual

/-- An expression keeps to the discipline, and its value fits its type. -/
theorem evaluate_keeps (hcalls : D.KeepsCalls call call') (hframe : D.Frame d frame) :
    ∀ {e : Expr} {type : Ty}, HasType R (environment p d) e type →
      D.Keeps frame (evaluate mode call e) (evaluate mode call' e) (D.fits · type)
  | .boolean _ b, _, h => by cases h; exact .pure (D.boolean b)
  | .number _ x, _, h => by cases h; exact .pure (D.real x)
  | .text _ s, _, h => by cases h; exact .pure (D.text s)
  | .identifier span name, _, h => valueOf_keeps hframe h span.start
  | .call span callee arguments, _, h => by
    cases h with
    | call found signature typed accepted =>
      refine .bind (calleeOf_keeps hframe found signature) ?_
      rintro f ⟨hf, rfl, rfl⟩
      refine .bind (evaluateArguments_keeps hcalls hframe typed) fun values hvalues => ?_
      exact hcalls frame callee span.start f values hf (D.fits_arguments hvalues accepted)
  | .unary _ .not operand, _, h => by
    cases h with
    | not typed =>
      refine .bind (asBoolean_keeps (evaluate_keeps hcalls hframe typed)) fun b _ => ?_
      exact .pure (D.boolean _)
  | .unary _ .negate operand, _, h => by
    cases h with
    | negate typed =>
      refine .bind (asReal_keeps (evaluate_keeps hcalls hframe typed)) fun x _ => ?_
      exact .pure (D.real _)
  | .binary span op left right, _, h => by
    cases h with
    | and first second =>
      refine .bind (asBoolean_keeps (evaluate_keeps hcalls hframe first)) fun a _ => ?_
      refine .bind (asBoolean_keeps (evaluate_keeps hcalls hframe second)) fun b _ => ?_
      exact .pure (D.boolean _)
    | or first second =>
      refine .bind (asBoolean_keeps (evaluate_keeps hcalls hframe first)) fun a _ => ?_
      refine .bind (asBoolean_keeps (evaluate_keeps hcalls hframe second)) fun b _ => ?_
      exact .pure (D.boolean _)
    | arithmetic first second =>
      refine .bind (asReal_keeps (evaluate_keeps hcalls hframe first)) fun a _ => ?_
      refine .bind (asReal_keeps (evaluate_keeps hcalls hframe second)) fun b _ => ?_
      exact .pure (D.real _)
    | compare first second =>
      refine .bind (asReal_keeps (evaluate_keeps hcalls hframe first)) fun a _ => ?_
      refine .bind (asReal_keeps (evaluate_keeps hcalls hframe second)) fun b _ => ?_
      exact .pure (D.boolean _)
    | equals first second same =>
      refine .bind (evaluate_keeps hcalls hframe first) fun v hv => ?_
      refine .bind (evaluate_keeps hcalls hframe second) fun w hw => ?_
      refine .bind (Q := fun _ => True) (.lift (fun _ _ => trivial) fun fault hfault => ?_)
        fun b _ => .pure (D.boolean b)
      exact D.compared mode span.start v w _ _ fault hv hw same hfault
    | concat first second joined =>
      obtain ⟨⟨α, rfl⟩, ⟨β, rfl⟩, hjoin⟩ := Ty.joinLists_eq_some joined
      refine .bind (asList_keeps (evaluate_keeps hcalls hframe first)) ?_
      rintro vs ⟨i, hvs⟩
      refine .bind (asList_keeps (evaluate_keeps hcalls hframe second)) ?_
      rintro ws ⟨j, hws⟩
      refine .newList fun k => D.append i vs j ws k _ ?_ ?_
      · exact D.joinLeft _ _ _ _ hjoin hvs
      · exact D.joinRight _ _ _ _ hjoin hws
  | .conditional _ condition whenTrue whenFalse, _, h => by
    cases h with
    | conditional guard first second joined =>
      refine .bind (asBoolean_keeps (evaluate_keeps hcalls hframe guard)) fun b _ => ?_
      split
      · exact (evaluate_keeps hcalls hframe first).weaken fun v hv =>
          D.joinLeft v _ _ _ joined hv
      · exact (evaluate_keeps hcalls hframe second).weaken fun v hv =>
          D.joinRight v _ _ _ joined hv
  | .list _ elements, _, h => by
    cases h with
    | empty =>
      refine .bind (.pure (Q := (· = [])) rfl) ?_
      rintro vs rfl
      exact .newList fun k => D.list k [] _ fun v hv => absurd hv List.not_mem_nil
    | list typed joined =>
      refine .bind (evaluateElements_keeps hcalls hframe typed) fun vs hvs => ?_
      exact .newList fun k => D.list k vs _ (D.fits_elements joined hvs)

theorem evaluateArguments_keeps (hcalls : D.KeepsCalls call call') (hframe : D.Frame d frame) :
    ∀ {es : List Expr} {types : List Ty}, HaveTypes R (environment p d) es types →
      D.Keeps frame (evaluateArguments mode call es) (evaluateArguments mode call' es)
        (List.Forall₂ D.fits · types)
  | [], _, h => by cases h; exact .pure .nil
  | e :: rest, _, h => by
    cases h with
    | cons first others =>
      refine .bind (argument_keeps hframe first (evaluate_keeps hcalls hframe first))
        fun v hv => ?_
      exact .bind (evaluateArguments_keeps hcalls hframe others) fun vs hvs =>
        .pure (.cons hv hvs)

theorem evaluateElements_keeps (hcalls : D.KeepsCalls call call') (hframe : D.Frame d frame) :
    ∀ {es : List Expr} {types : List Ty}, HaveTypes R (environment p d) es types →
      D.Keeps frame (evaluateElements mode call es) (evaluateElements mode call' es)
        (List.Forall₂ D.fits · types)
  | [], _, h => by cases h; exact .pure .nil
  | e :: rest, _, h => by
    cases h with
    | cons first others =>
      refine .bind (evaluate_keeps hcalls hframe first) fun v hv => ?_
      exact .bind (evaluateElements_keeps hcalls hframe others) fun vs hvs =>
        .pure (.cons hv hvs)

end

theorem evaluateBranches_keeps (hcalls : D.KeepsCalls call call') (hframe : D.Frame d frame)
    {otherwise : Expr} {last type : Ty} (hlast : HasType R (environment p d) otherwise last)
    {branches : List Branch} {types : List Ty}
    (h : BranchesHaveTypes R (environment p d) branches types)
    (hfits : ∀ v, ∀ a ∈ types ++ [last], D.fits v a → D.fits v type) :
    D.Keeps frame (evaluateBranches mode call otherwise branches)
      (evaluateBranches mode call' otherwise branches) (D.fits · type) := by
  induction h with
  | nil =>
    exact (evaluate_keeps hcalls hframe hlast).weaken fun v hv =>
      hfits v last List.mem_cons_self hv
  | cons guard action _ ih =>
    refine .bind (asBoolean_keeps (evaluate_keeps hcalls hframe guard)) fun b _ => ?_
    split
    · exact (evaluate_keeps hcalls hframe action).weaken fun v hv =>
        hfits v _ List.mem_cons_self hv
    · exact ih fun v a ha hv => hfits v a (List.mem_cons_of_mem _ ha) hv

theorem evaluateBody_keeps (hcalls : D.KeepsCalls call call') (hframe : D.Frame d frame)
    {body : Body} {type : Ty} (h : BodyHasType R (environment p d) body type) :
    D.Keeps frame (evaluateBody mode call body) (evaluateBody mode call' body)
      (D.fits · type) := by
  cases h with
  | inline typed => exact evaluate_keeps hcalls hframe typed
  | piecewise guarded typed joined =>
    exact evaluateBranches_keeps hcalls hframe typed guarded fun v a ha hv =>
      D.fits_joinMany joined ha hv

end Expressions

section Runs

variable {R : Rules} {p : Program} {D : Discipline R p}

/-- A frame of its own, in which the parameters of a function are bound to given values. -/
theorem inFrame_keeps {f : Declaration} (hdistinct : f.parameterNames.Nodup)
    {values : List Value} {locals : List Scope} {step twin : Eval Value} {Q : Value → Prop}
    (h : D.Keeps ⟨boundSymbols f.parameters values⟩ step twin Q) :
    Meets ⟨p.signatures, locals⟩ D.allows
      (inFrame do bindParameters f.parameters values; step)
      (inFrame do bindParameters f.parameters values; twin) Q := by
  have hbind : ∀ next : Eval Value, ∀ s : State, s.scopes = ⟨p.signatures, [.empty]⟩ →
      (bindParameters f.parameters values >>= fun _ => next) s =
        next { s with scopes := ⟨p.signatures, [⟨boundSymbols f.parameters values⟩]⟩ } := by
    intro next s hs
    change EStateM.bind (bindParameters f.parameters values) (fun _ => next) s = _
    unfold EStateM.bind
    rw [bindParameters_eq hs hdistinct]
  exact .inFrame (hbind step) (hbind twin) h

/-- Calls keep to a discipline where the bodies that they run do: the values fit the parameters one
by one, so the guard lets the call through. -/
theorem callWith_keeps (hdistinct : ∀ f ∈ p.declarations, f.parameterNames.Nodup)
    {run run' : Body → Eval Value}
    (h : ∀ f ∈ p.declarations, ∀ frame, D.Frame f frame →
      D.Keeps frame (run f.body) (run' f.body) (D.fits · f.output)) (other : Call) :
    D.KeepsCalls (callWith run) (guardedCall (callWith run') other) := by
  intro frame callee place f values hf hvalues
  have hlength : values.length = f.parameters.length := by
    rw [hvalues.length_eq, Declaration.inputs, List.length_map]
  have hguarded : guardedCall (callWith run') other callee place f values =
      callWith run' callee place f values := if_pos hlength
  rw [hguarded]
  refine .bind .countCall fun _ _ => inFrame_keeps (hdistinct f hf) ?_
  cases hbuiltin : Builtin.ofName? f.name with
  | some b =>
    exact .applyBuiltin
      (fun fresh v hv => (D.builtin f hf b hbuiltin fresh values place hvalues).1 v hv)
      fun fresh fault hfault =>
        (D.builtin f hf b hbuiltin fresh values place hvalues).2 fault hfault
  | none => exact h f hf _ (boundFrame_of_values hvalues D.functionDropped)

/-- The bodies of functions in order keep to a discipline, however deeply calls may nest. -/
theorem runBody_keeps (htyped : ∀ f ∈ p.declarations, WellTyped R p f) (mode : ListEquality)
    (other : Call) : ∀ (depth : Nat), ∀ f ∈ p.declarations, ∀ frame, D.Frame f frame →
    D.Keeps frame (runBody mode depth f.body) (runBodyGuarded other mode depth f.body)
      (D.fits · f.output) := by
  intro depth
  induction depth with
  | zero =>
    intro f _ frame _
    exact .tooDeep
  | succ depth ih =>
    intro f hf frame hframe
    have hcalls := callWith_keeps (fun f hf => (htyped f hf).distinct) ih other
    obtain ⟨type, hbody, hagrees⟩ := (htyped f hf).body
    exact (evaluateBody_keeps hcalls hframe hbody).weaken fun v hv =>
      D.returned v type f.returns hv hagrees

/-- An entry function keeps to a discipline, if it has no parameters or these may be without
values. -/
theorem runEntry_keeps (htyped : ∀ f ∈ p.declarations, WellTyped R p f) {d : Declaration}
    (hd : d ∈ p.declarations) (hunbound : d.parameters ≠ [] → D.unbound) (mode : ListEquality)
    (other : Call) (depth : Nat) :
    Meets ⟨p.signatures, []⟩ D.allows (runEntry mode depth d)
      (runEntryGuarded other mode depth d) (D.fits · d.output) :=
  inFrame_keeps (htyped d hd).distinct
    (runBody_keeps htyped mode other depth d hd _ (boundFrame_of_unbound hunbound))

/-- How a run of an entry function may end: with a value that fits, in a fault that is allowed, or
with calls nested too deeply. -/
theorem runEntry_outcome (D : Discipline R p) (htyped : ∀ f ∈ p.declarations, WellTyped R p f)
    {d : Declaration} (hd : d ∈ p.declarations) (hunbound : d.parameters ≠ [] → D.unbound)
    (mode : ListEquality) (depth : Nat) :
    (∃ v t, runEntry mode depth d (.initial ⟨p.signatures, []⟩) = .ok v t ∧
      D.fits v d.output) ∨
    (∃ failure t, runEntry mode depth d (.initial ⟨p.signatures, []⟩) =
      .error (.fault failure) t ∧ D.allows failure.fault) ∨
    ∃ t, runEntry mode depth d (.initial ⟨p.signatures, []⟩) = .error .tooDeep t := by
  obtain ⟨_, hvalue, hfault⟩ := runEntry_keeps htyped hd hunbound mode
    (callWith (runBody mode depth)) depth (.initial ⟨p.signatures, []⟩) rfl
  cases hrun : runEntry mode depth d (.initial ⟨p.signatures, []⟩) with
  | ok v t => exact Or.inl ⟨v, t, rfl, (hvalue v t hrun).2⟩
  | error halt t =>
    cases halt with
    | fault failure => exact Or.inr (Or.inl ⟨failure, t, rfl, hfault failure t hrun⟩)
    | tooDeep => exact Or.inr (Or.inr ⟨t, rfl⟩)

end Runs

end Evaluation

end Piecewise
