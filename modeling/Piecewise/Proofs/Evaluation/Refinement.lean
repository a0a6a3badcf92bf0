import Piecewise.Proofs.Evaluation.Contract
import Piecewise.Proofs.Evaluation.Frames
import Piecewise.Proofs.Evaluation.Stackless
import Piecewise.Proofs.Typing.Sound

/-!
# Runs are statically scoped

The scopes of a run refine environments. At every point of a run of an accepted program the scopes
are the global scope and one frame on it, and the frame holds what the environment of the
interpreter without scopes holds. So both find the same under every name, and both end in the same
way: with the same value or the same fault at the same place, and with every function called
equally often.
-/

namespace Piecewise

namespace Evaluation

variable {α β : Type}

def State.counters (s : State) : Stackless.Counters := ⟨s.callCount, s.allocated⟩

/-- A call in the log is one more call of its name. -/
theorem counters_call (s : State) (callee : String) :
    ({ s with calls := callee :: s.calls } : State).counters =
      { s.counters with
        calls := fun name => s.counters.calls name + if name = callee then 1 else 0 } := by
  have hcount : ∀ name, (callee :: s.calls).count name =
      s.calls.count name + if name = callee then 1 else 0 := by
    intro name
    rw [List.count_cons]
    by_cases hname : name = callee
    · simp [hname]
    · have hother : callee ≠ name := fun h => hname h.symm
      simp [hname, hother]
  exact congrArg (fun calls => (⟨calls, s.allocated⟩ : Stackless.Counters)) (funext hcount)

def withoutScopes : EStateM.Result Halt State α → EStateM.Result Halt Stackless.Counters α
  | .ok a s => .ok a s.counters
  | .error halt s => .error halt s.counters

/-- A step that does in the given scopes what another does without any, and that leaves the scopes
as they were where it has a value. -/
def Refines (scopes : Scopes) (step : Eval α) (plain : Stackless.Run α) : Prop :=
  ∀ s, s.scopes = scopes → plain s.counters = withoutScopes (step s) ∧
    ∀ a t, step s = .ok a t → t.scopes = scopes

namespace Refines

variable {scopes : Scopes}

theorem pure (a : α) : Refines scopes (Pure.pure a) (Pure.pure a) := by
  intro s hs
  refine ⟨rfl, fun b t hstep => ?_⟩
  cases hstep
  exact hs

theorem bind {step : Eval α} {plain : Stackless.Run α} {next : α → Eval β}
    {next' : α → Stackless.Run β} (h : Refines scopes step plain)
    (k : ∀ a, Refines scopes (next a) (next' a)) :
    Refines scopes (step >>= next) (plain >>= next') := by
  intro s hs
  obtain ⟨hsame, hscopes⟩ := h s hs
  change EStateM.bind plain next' s.counters = withoutScopes (EStateM.bind step next s) ∧
    ∀ b t, EStateM.bind step next s = .ok b t → t.scopes = scopes
  unfold EStateM.bind
  rw [hsame]
  cases hstep : step s with
  | ok a u => exact k a u (hscopes a u hstep)
  | error halt u =>
    refine ⟨rfl, fun b t hfail => ?_⟩
    cases hfail

theorem throw (halt : Halt) : Refines scopes (MonadExcept.throw halt : Eval α)
    (MonadExcept.throw halt) := by
  intro s _
  refine ⟨rfl, fun b t hstep => ?_⟩
  cases hstep

theorem lift (outcome : Except Diagnostic α) :
    Refines scopes (Evaluation.lift outcome) (Stackless.lift outcome) := by
  cases outcome with
  | ok a => exact .pure a
  | error d => exact .throw (.fault d)

theorem newList (elements : List Value) :
    Refines scopes (Evaluation.newList elements)
      (do return .list (← Stackless.allocate) elements) := by
  intro s hs
  refine ⟨rfl, fun v t hstep => ?_⟩
  cases hstep
  exact hs

theorem applyBuiltin (b : Builtin) (values : List Value) (place : Position) :
    Refines scopes (Evaluation.applyBuiltin b values place)
      (Stackless.runBuiltin b values place) := by
  intro s hs
  have hstep : Evaluation.applyBuiltin b values place s =
      EStateM.bind (Evaluation.lift (b.apply s.allocated values place))
        (fun v _ => .ok v { s with allocated := s.allocated + 1 }) s := rfl
  have hplain : Stackless.runBuiltin b values place s.counters =
      EStateM.bind (Stackless.lift (b.apply s.allocated values place))
        (fun v c => .ok v { c with allocated := c.allocated + 1 }) s.counters := rfl
  rw [hstep, hplain]
  cases b.apply s.allocated values place with
  | ok v =>
    refine ⟨rfl, fun w t hrun => ?_⟩
    cases hrun
    exact hs
  | error d =>
    refine ⟨rfl, fun w t hrun => ?_⟩
    cases hrun

theorem count (callee : String) :
    Refines scopes (modify fun s => { s with calls := callee :: s.calls })
      (Stackless.count callee) := by
  intro s hs
  refine ⟨?_, fun a t hstep => ?_⟩
  · exact congrArg (EStateM.Result.ok ()) (counters_call s callee).symm
  · cases hstep
    exact hs

/-- A step in a frame of its own, once it is known what the frame holds when the rest begins. -/
theorem inFrame {global : Scope} {locals inner : List Scope} {step rest : Eval α}
    {plain : Stackless.Run α}
    (hstep : ∀ s, s.scopes = ⟨global, [.empty]⟩ →
      step s = rest { s with scopes := ⟨global, inner⟩ })
    (h : Refines ⟨global, inner⟩ rest plain) :
    Refines ⟨global, locals⟩ (Evaluation.inFrame step) plain := by
  intro s hs
  obtain ⟨hsame, hscopes⟩ := h { s with scopes := ⟨global, inner⟩ } rfl
  have henter : step { s with scopes := ⟨s.scopes.global, [.empty]⟩ } =
      rest { s with scopes := ⟨global, inner⟩ } := hstep _ (by rw [hs])
  have hcounters : plain s.counters = withoutScopes (rest { s with scopes := ⟨global, inner⟩ }) :=
    hsame
  rw [hcounters]
  cases hrest : rest { s with scopes := ⟨global, inner⟩ } with
  | ok a u =>
    rw [inFrame_ok (henter.trans hrest)]
    refine ⟨rfl, fun b t heq => ?_⟩
    cases heq
    have hu : u.scopes = ⟨global, inner⟩ := hscopes a u hrest
    simp [hu, hs]
  | error halt u =>
    rw [inFrame_error (henter.trans hrest)]
    refine ⟨rfl, fun b t heq => ?_⟩
    cases heq

end Refines

def bindingSymbol (b : Stackless.Binding) : Symbol :=
  { Symbol.parameter b.name b.type with value := b.value }

/-- The scopes of a run where an environment is in force. -/
def scopesOf (p : Program) (env : List Stackless.Binding) : Scopes :=
  ⟨p.signatures, [⟨env.map bindingSymbol⟩]⟩

theorem filter_isFunction (v : Value) :
    (some v).filter (fun v => !v.isFunction) = Stackless.bindable? v := by
  cases v <;> rfl

/-- Binding parameters makes the frame of their environment. -/
theorem boundSymbols_eq_map : ∀ (qs : List Param) (values : List Value),
    boundSymbols qs values = (Stackless.bindings qs values).map bindingSymbol := by
  intro qs
  induction qs with
  | nil => intro values; rfl
  | cons q qs ih =>
    intro values
    cases values with
    | nil =>
      change _ :: boundSymbols qs [] = _ :: (Stackless.bindings qs []).map bindingSymbol
      rw [ih []]
      rfl
    | cons v values =>
      change { Symbol.parameter q.name q.type.toTy with
          value := (some v).filter fun v => !v.isFunction } :: boundSymbols qs values =
        { Symbol.parameter q.name q.type.toTy with value := Stackless.bindable? v } ::
          (Stackless.bindings qs values).map bindingSymbol
      rw [ih values, filter_isFunction]

def foundSymbol : Stackless.Found → Symbol
  | .parameter b => bindingSymbol b
  | .function d => .ofSignature d

/-- A name is found in the scopes exactly as it is found without them. -/
theorem resolve_scopesOf (p : Program) (env : List Stackless.Binding) (name : String)
    (place : Position) :
    (scopesOf p env).resolve name place =
      (Stackless.lookup p env name place).map foundSymbol := by
  have hframe : (⟨env.map bindingSymbol⟩ : Scope).get? name =
      (env.find? fun b => b.name = name).map bindingSymbol := by
    unfold Scope.get?
    rw [List.find?_map]
    rfl
  have hglobal : p.signatures.get? name = (p.find? name).map .ofSignature := by
    unfold Program.signatures Scope.get? Program.find?
    rw [List.find?_map]
    rfl
  unfold Scopes.resolve scopesOf Stackless.lookup
  rw [Scopes.resolve?_frame, hframe, hglobal]
  cases env.find? fun b => b.name = name with
  | some b => rfl
  | none =>
    cases p.find? name with
    | some d => rfl
    | none => rfl

section Expressions

variable {p : Program} {env : List Stackless.Binding}

theorem mem_of_lookup_function {name : String} {place : Position} {d : Declaration}
    (h : Stackless.lookup p env name place = .ok (.function d)) : d ∈ p.declarations := by
  unfold Stackless.lookup at h
  split at h
  · cases h
  · split at h
    · rename_i f hf
      cases h
      exact (Program.mem_of_find? hf).1
    · cases h

/-- What is looked up in the scopes is the symbol of what is looked up without them. -/
theorem Refines.resolve {name : String} {place : Position} {next : Symbol → Eval α}
    {next' : Stackless.Found → Stackless.Run α}
    (k : ∀ found, Stackless.lookup p env name place = .ok found →
      Refines (scopesOf p env) (next (foundSymbol found)) (next' found)) :
    Refines (scopesOf p env) (Evaluation.resolve name place >>= next)
      (Stackless.lift (Stackless.lookup p env name place) >>= next') := by
  intro s hs
  have hresolve : Evaluation.resolve name place s =
      Evaluation.lift ((Stackless.lookup p env name place).map foundSymbol) s := by
    change Evaluation.lift (s.scopes.resolve name place) s = _
    rw [hs, resolve_scopesOf]
  have hstep : (Evaluation.resolve name place >>= next) s =
      EStateM.bind (Evaluation.lift ((Stackless.lookup p env name place).map foundSymbol))
        next s := by
    change EStateM.bind (Evaluation.resolve name place) next s = _
    unfold EStateM.bind
    rw [hresolve]
  rw [hstep]
  cases hfound : Stackless.lookup p env name place with
  | ok found => exact k found hfound s hs
  | error d => exact Refines.throw (.fault d) s hs

variable {e : Expr} {step : Eval Value} {plain : Stackless.Run Value}

theorem asBoolean_refines {next : Bool → Eval α} {next' : Bool → Stackless.Run α}
    (h : Refines (scopesOf p env) step plain)
    (k : ∀ b, Refines (scopesOf p env) (next b) (next' b)) :
    Refines (scopesOf p env) (asBoolean e step >>= next)
      (plain >>= fun v => Stackless.lift (Stackless.toBoolean e v) >>= next') := by
  have hassoc : (asBoolean e step >>= next) = step >>= fun v => asBoolean e (pure v) >>= next := by
    simp [asBoolean]
  rw [hassoc]
  refine .bind h fun v => ?_
  cases v with
  | boolean b => exact k b
  | real | text | list | function | type => exact .throw _

theorem asReal_refines {next : Float → Eval α} {next' : Float → Stackless.Run α}
    (h : Refines (scopesOf p env) step plain)
    (k : ∀ x, Refines (scopesOf p env) (next x) (next' x)) :
    Refines (scopesOf p env) (asReal e step >>= next)
      (plain >>= fun v => Stackless.lift (Stackless.toReal e v) >>= next') := by
  have hassoc : (asReal e step >>= next) = step >>= fun v => asReal e (pure v) >>= next := by
    simp [asReal]
  rw [hassoc]
  refine .bind h fun v => ?_
  cases v with
  | real x => exact k x
  | boolean | text | list | function | type => exact .throw _

theorem asList_refines {next : List Value → Eval α} {next' : List Value → Stackless.Run α}
    (h : Refines (scopesOf p env) step plain)
    (k : ∀ elements, Refines (scopesOf p env) (next elements) (next' elements)) :
    Refines (scopesOf p env) (asList e step >>= next)
      (plain >>= fun v => Stackless.lift (Stackless.toElements e v) >>= next') := by
  have hassoc : (asList e step >>= next) = step >>= fun v => asList e (pure v) >>= next := by
    simp [asList]
  rw [hassoc]
  refine .bind h fun v => ?_
  cases v with
  | list i elements => exact k elements
  | boolean | real | text | function | type => exact .throw _

theorem valueOf_refines (name : String) (place : Position) :
    Refines (scopesOf p env) (valueOf name place)
      (Stackless.lift (Stackless.lookup p env name place) >>= fun found =>
        Stackless.lift (Stackless.toValue name place found)) := by
  refine .resolve fun found _ => ?_
  cases found with
  | function d => exact .pure _
  | parameter b =>
    obtain ⟨name', type, value⟩ := b
    cases value with
    | some v => exact .pure v
    | none => exact .throw _

/-- A callee found in the scopes is one found without them, and it is one of the program. -/
theorem calleeOf_refines (callee : String) (place : Position) {next : Declaration → Eval α}
    {next' : Declaration → Stackless.Run α}
    (k : ∀ d ∈ p.declarations, Refines (scopesOf p env) (next d) (next' d)) :
    Refines (scopesOf p env) (calleeOf callee place >>= next)
      (Stackless.lift (Stackless.lookup p env callee place) >>= fun found =>
        Stackless.lift (Stackless.toFunction callee place found) >>= next') := by
  unfold calleeOf
  rw [bind_assoc]
  refine .resolve fun found hfound => ?_
  cases found with
  | function d => exact k d (mem_of_lookup_function hfound)
  | parameter b => exact .throw _

/-- A name that stands alone as an argument. -/
theorem argument_refines (span : Span) (name : String) :
    Refines (scopesOf p env) (argument (.identifier span name) (valueOf name span.start))
      (Stackless.lift (Stackless.lookup p env name span.start) >>= fun found =>
        pure (Stackless.toArgument found)) := by
  refine .resolve fun found hfound => ?_
  have hvalue : Refines (scopesOf p env) (valueOf name span.start)
      (Stackless.lift (Stackless.lookup p env name span.start) >>= fun found =>
        Stackless.lift (Stackless.toValue name span.start found)) := valueOf_refines name span.start
  rw [hfound] at hvalue
  cases found with
  | function d => exact hvalue
  | parameter b =>
    obtain ⟨name', type, value⟩ := b
    cases value with
    | some v => exact hvalue
    | none => exact .pure _

/-- Calls that do in all scopes of environments what others do without scopes. -/
def RefinesCalls (p : Program) (call : Call) (invoke : Stackless.Invoke) : Prop :=
  ∀ env callee place, ∀ d ∈ p.declarations, ∀ values,
    Refines (scopesOf p env) (call callee place d values) (invoke callee place d values)

variable {mode : ListEquality} {call : Call} {invoke : Stackless.Invoke}

mutual

/-- An expression is evaluated in the scopes of an environment as it is without scopes. -/
theorem evaluate_refines (hcalls : RefinesCalls p call invoke) : ∀ e : Expr,
    Refines (scopesOf p env) (evaluate mode call e) (Stackless.evaluate p mode invoke env e)
  | .boolean _ b => .pure (Value.boolean b)
  | .number _ x => .pure (Value.real x)
  | .text _ s => .pure (Value.text s)
  | .identifier span name => valueOf_refines name span.start
  | .call span callee arguments => by
    refine calleeOf_refines callee span.start fun d hd => ?_
    refine .bind (evaluateArguments_refines hcalls arguments) fun values => ?_
    exact hcalls env callee span.start d hd values
  | .unary _ .not operand =>
    asBoolean_refines (evaluate_refines hcalls operand) fun b => .pure (Value.boolean !b)
  | .unary _ .negate operand =>
    asReal_refines (evaluate_refines hcalls operand) fun x => .pure (Value.real (-x))
  | .binary span op left right => by
    have hleft := evaluate_refines hcalls left
    have hright := evaluate_refines hcalls right
    cases op with
    | and =>
      refine asBoolean_refines hleft fun a => ?_
      exact asBoolean_refines hright fun b => .pure (Value.boolean (a && b))
    | or =>
      refine asBoolean_refines hleft fun a => ?_
      exact asBoolean_refines hright fun b => .pure (Value.boolean (a || b))
    | equals =>
      refine .bind hleft fun a => .bind hright fun b => ?_
      exact .bind (.lift (Value.equal mode span.start a b)) fun equal => .pure (Value.boolean equal)
    | concat =>
      refine asList_refines hleft fun a => ?_
      exact asList_refines hright fun b => .newList (a ++ b)
    | compare c =>
      refine asReal_refines hleft fun a => ?_
      exact asReal_refines hright fun b => .pure (Value.boolean (c.holds a b))
    | arithmetic op =>
      refine asReal_refines hleft fun a => ?_
      exact asReal_refines hright fun b => .pure (Value.real (op.apply a b))
  | .conditional _ condition whenTrue whenFalse => by
    refine asBoolean_refines (evaluate_refines hcalls condition) fun b => ?_
    cases b with
    | true => exact evaluate_refines hcalls whenTrue
    | false => exact evaluate_refines hcalls whenFalse
  | .list _ elements => .bind (evaluateElements_refines hcalls elements) .newList

theorem evaluateArguments_refines (hcalls : RefinesCalls p call invoke) : ∀ es : List Expr,
    Refines (scopesOf p env) (evaluateArguments mode call es)
      (Stackless.evaluateArguments p mode invoke env es)
  | [] => .pure []
  | e :: rest => by
    have hvalue := evaluate_refines hcalls e
    have hrest := evaluateArguments_refines hcalls rest
    cases e with
    | identifier span name =>
      have hassoc : Stackless.evaluateArguments p mode invoke env (.identifier span name :: rest) =
          (Stackless.lift (Stackless.lookup p env name span.start) >>= fun found =>
            pure (Stackless.toArgument found)) >>= fun v => do
              return v :: (← Stackless.evaluateArguments p mode invoke env rest) := by
        simp [Stackless.evaluateArguments]
      rw [hassoc]
      refine .bind (argument_refines span name) fun v => ?_
      exact .bind hrest fun vs => .pure (v :: vs)
    | boolean | number | text | call | unary | binary | conditional | list =>
      refine .bind hvalue fun v => ?_
      exact .bind hrest fun vs => .pure (v :: vs)

theorem evaluateElements_refines (hcalls : RefinesCalls p call invoke) : ∀ es : List Expr,
    Refines (scopesOf p env) (evaluateElements mode call es)
      (Stackless.evaluateElements p mode invoke env es)
  | [] => .pure []
  | e :: rest => by
    refine .bind (evaluate_refines hcalls e) fun v => ?_
    exact .bind (evaluateElements_refines hcalls rest) fun vs => .pure (v :: vs)

end

theorem evaluateBranches_refines (hcalls : RefinesCalls p call invoke) (otherwise : Expr)
    (branches : List Branch) :
    Refines (scopesOf p env) (evaluateBranches mode call otherwise branches)
      (Stackless.evaluateBranches p mode invoke env otherwise branches) := by
  induction branches with
  | nil => exact evaluate_refines hcalls otherwise
  | cons branch rest ih =>
    refine asBoolean_refines (evaluate_refines hcalls branch.guard) fun b => ?_
    cases b with
    | true => exact evaluate_refines hcalls branch.action
    | false => exact ih

theorem evaluateBody_refines (hcalls : RefinesCalls p call invoke) (body : Body) :
    Refines (scopesOf p env) (evaluateBody mode call body)
      (Stackless.evaluateBody p mode invoke env body) := by
  cases body with
  | inline value => exact evaluate_refines hcalls value
  | piecewise span branches otherwise => exact evaluateBranches_refines hcalls otherwise branches

end Expressions

section Runs

variable {p : Program} {mode : ListEquality}

/-- The frame of a call holds what the environment of its function holds, whatever the scopes of
the caller. -/
theorem inFrame_refines {d : Declaration} (hdistinct : d.parameterNames.Nodup)
    {values : List Value} {locals : List Scope} {step : Eval Value} {plain : Stackless.Run Value}
    (h : Refines (scopesOf p (Stackless.bindings d.parameters values)) step plain) :
    Refines ⟨p.signatures, locals⟩ (inFrame do bindParameters d.parameters values; step)
      plain := by
  refine .inFrame (fun s hs => ?_) h
  change EStateM.bind (bindParameters d.parameters values) (fun _ => step) s = _
  unfold EStateM.bind
  rw [bindParameters_eq hs hdistinct, boundSymbols_eq_map]

/-- Bodies are run in the scopes of an environment as they are without scopes, to every depth. -/
theorem runBody_refines (hdistinct : ∀ d ∈ p.declarations, d.parameterNames.Nodup) :
    ∀ (depth : Nat) (env : List Stackless.Binding) (body : Body),
      Refines (scopesOf p env) (runBody mode depth body)
        (Stackless.runBody p mode depth env body) := by
  intro depth
  induction depth with
  | zero =>
    intro env body
    exact .throw .tooDeep
  | succ depth ih =>
    intro env body
    refine evaluateBody_refines (fun env callee place d hd values => ?_) body
    refine .bind (.count callee) fun _ => inFrame_refines (hdistinct d hd) ?_
    cases Builtin.ofName? d.name with
    | some b => exact .applyBuiltin b values place
    | none => exact ih (Stackless.bindings d.parameters values) d.body

/-- The run of any function of an accepted program is that of the interpreter without scopes: it
ends with the same value or the same fault at the same place, and has called every name equally
often. -/
theorem runEntry_eq_stackless {checked : Scopes} (h : p.Accepted checked) {d : Declaration}
    (hd : d ∈ p.declarations) (mode : ListEquality) (depth : Nat) :
    withoutScopes (runEntry mode depth d (.initial checked)) =
      Stackless.runEntry p mode depth d .initial := by
  obtain ⟨_, rfl, htyped⟩ := Typing.typed_of_accepted h
  have hdistinct : ∀ f ∈ p.declarations, f.parameterNames.Nodup :=
    fun f hf => (htyped f hf).distinct
  have hentry : Refines ⟨p.signatures, []⟩ (runEntry mode depth d)
      (Stackless.runEntry p mode depth d) :=
    inFrame_refines (hdistinct d hd) (runBody_refines hdistinct depth _ d.body)
  exact (hentry (.initial ⟨p.signatures, []⟩) rfl).1.symm

end Runs

/-- `opposite(x: bool) -> bool = not x`. -/
def opposite : Declaration where
  number := 0
  name := "opposite"
  parameters := [⟨"x", .primitive default .bool, default⟩]
  returns := .primitive default .bool
  body := .inline (.unary default .not (.identifier default "x"))
  span := default

/-- `pick(f: (bool) -> bool, opposite: bool) -> bool = opposite`. -/
def pickSecond : Declaration where
  number := 1
  name := "pick"
  parameters := [
    ⟨"f", .function default [.primitive default .bool] (.primitive default .bool), default⟩,
    ⟨"opposite", .primitive default .bool, default⟩]
  returns := .primitive default .bool
  body := .inline (.identifier default "opposite")
  span := default

/-- `pass(f: (bool) -> bool, x: bool) -> bool = pick(f, opposite(x))`. -/
def passOn : Declaration where
  number := 2
  name := "pass"
  parameters := [
    ⟨"f", .function default [.primitive default .bool] (.primitive default .bool), default⟩,
    ⟨"x", .primitive default .bool, default⟩]
  returns := .primitive default .bool
  body := .inline (.call default "pick" [.identifier default "f",
    .call default "opposite" [.identifier default "x"]])
  span := default

/-- `main() -> bool = pass(opposite, opposite(true))`. -/
def passOpposite : Declaration where
  number := 3
  name := "main"
  parameters := []
  returns := .primitive default .bool
  body := .inline (.call default "pass" [.identifier default "opposite",
    .call default "opposite" [.boolean default true]])
  span := default

/-- A program in which a parameter hides a function, and in which a function is passed on. -/
def passingProgram : Program := ⟨[opposite, pickSecond, passOn, passOpposite], default⟩

/-- The run ends with a value after two calls of the function that the parameter hides. -/
theorem runEntry_eq_stackless_passingProgram :
    passingProgram.Accepted ⟨passingProgram.signatures, []⟩ ∧
      passOpposite ∈ passingProgram.declarations ∧
      ∃ c, c.calls "opposite" = 2 ∧ c.calls "pick" = 1 ∧
        Stackless.runEntry passingProgram .structural 3 passOpposite .initial =
          .ok (.boolean true) c ∧
        withoutScopes (runEntry .structural 3 passOpposite
          (.initial ⟨passingProgram.signatures, []⟩)) = .ok (.boolean true) c := by
  have haccepted : passingProgram.Accepted ⟨passingProgram.signatures, []⟩ := by decide +kernel
  have hentry : passOpposite ∈ passingProgram.declarations := by simp [passingProgram]
  have hsame := runEntry_eq_stackless haccepted hentry .structural 3
  obtain ⟨c, hrun, hopposite, hpick⟩ : ∃ c,
      Stackless.runEntry passingProgram .structural 3 passOpposite .initial =
        .ok (.boolean true) c ∧ c.calls "opposite" = 2 ∧ c.calls "pick" = 1 :=
    ⟨_, rfl, by decide, by decide⟩
  exact ⟨haccepted, hentry, c, hopposite, hpick, hrun, hsame.trans hrun⟩

end Evaluation

end Piecewise
