import Piecewise.Proofs.Evaluation.Contract
import Piecewise.Proofs.Scope.Paired

/-!
# Two runs in step

Two runs of one expression from paired scopes do the same all along. They end in paired values or
in one and the same fault, make equally many lists, call the same names, and both leave their
scopes as they were. Only what they start from is related, so one traversal of the evaluator serves
every pairing: a run is compared with a later run of the same expression, with the run in which
another operand went first, and with the run of a program in which other bodies stand.
-/

namespace Piecewise

namespace Evaluation

variable {α β : Type}

/-- Two states from which runs can go in step, when the first has come to a number of
allocations. -/
structure PairedStates (M : Pairing) (n : Nat) (s t : State) : Prop where
  allocated : s.allocated = n
  next : M.next n t.allocated
  scopes : Scopes.Paired (M.lists n) M.functions s.scopes t.scopes

/-- What runs in step from `s` and `t` leave: their scopes, and equally many new calls and lists
on both sides. -/
structure Advance (s t u v : State) : Prop where
  scopes : u.scopes = s.scopes
  scopes_twin : v.scopes = t.scopes
  calls : ∃ names, u.calls = names ++ s.calls ∧ v.calls = names ++ t.calls
  allocated : ∃ k, u.allocated = s.allocated + k ∧ v.allocated = t.allocated + k

namespace Advance

theorem refl (s t : State) : Advance s t s t :=
  ⟨rfl, rfl, ⟨[], rfl, rfl⟩, ⟨0, rfl, rfl⟩⟩

theorem allocate (s t : State) : Advance s t { s with allocated := s.allocated + 1 }
    { t with allocated := t.allocated + 1 } :=
  ⟨rfl, rfl, ⟨[], rfl, rfl⟩, ⟨1, rfl, rfl⟩⟩

theorem call (callee : String) (s t : State) : Advance s t { s with calls := callee :: s.calls }
    { t with calls := callee :: t.calls } :=
  ⟨rfl, rfl, ⟨[callee], rfl, rfl⟩, ⟨0, rfl, rfl⟩⟩

theorem trans {s t u v w x : State} (h : Advance s t u v) (k : Advance u v w x) :
    Advance s t w x := by
  obtain ⟨names, hcalls, hcalls'⟩ := h.calls
  obtain ⟨more, kcalls, kcalls'⟩ := k.calls
  obtain ⟨i, hi, hi'⟩ := h.allocated
  obtain ⟨j, hj, hj'⟩ := k.allocated
  refine ⟨k.scopes.trans h.scopes, k.scopes_twin.trans h.scopes_twin, ⟨more ++ names, ?_, ?_⟩,
    ⟨i + j, by omega, by omega⟩⟩
  · rw [kcalls, hcalls, List.append_assoc]
  · rw [kcalls', hcalls', List.append_assoc]

theorem le {s t u v : State} (h : Advance s t u v) : s.allocated ≤ u.allocated := by
  obtain ⟨k, hk, _⟩ := h.allocated
  omega

/-- What runs leave in frames, they leave of the scopes below when the frames are left. -/
theorem leave {s t u v : State} {frame frame' : Scope}
    (h : Advance { s with scopes := ⟨s.scopes.global, [frame]⟩ }
      { t with scopes := ⟨t.scopes.global, [frame']⟩ } u v) :
    Advance s t { u with scopes := u.scopes.leaveFrame s.scopes.locals }
      { v with scopes := v.scopes.leaveFrame t.scopes.locals } := by
  refine ⟨?_, ?_, h.calls, h.allocated⟩
  · rw [h.scopes]; rfl
  · rw [h.scopes_twin]; rfl

end Advance

variable {M : Pairing} {n : Nat}

theorem next_add {m : Nat} (h : M.next n m) : ∀ k, M.next (n + k) (m + k)
  | 0 => h
  | k + 1 => M.next_succ (next_add h k)

/-- Runs that went in step can go on in step. -/
theorem PairedStates.advance {s t u v : State} (hst : PairedStates M n s t)
    (h : Advance s t u v) : PairedStates M u.allocated u v := by
  have hle : n ≤ u.allocated := hst.allocated ▸ h.le
  obtain ⟨k, hk, hk'⟩ := h.allocated
  refine ⟨rfl, ?_, ?_⟩
  · rw [hk, hk', hst.allocated]
    exact next_add hst.next k
  · rw [h.scopes, h.scopes_twin]
    exact hst.scopes.mono fun _ _ => Pairing.lists_mono hle

/-- Both runs end in the same way, and their values are related. -/
inductive PairedEnds (Q : Nat → α → α → Prop) (s t : State) :
    EStateM.Result Halt State α → EStateM.Result Halt State α → Prop
  | ok {a b : α} {u v : State} (advance : Advance s t u v) (value : Q u.allocated a b) :
      PairedEnds Q s t (.ok a u) (.ok b v)
  | error {halt : Halt} {u v : State} (advance : Advance s t u v) :
      PairedEnds Q s t (.error halt u) (.error halt v)

theorem PairedEnds.trans {Q : Nat → α → α → Prop} {s t u v : State}
    {outcome outcome' : EStateM.Result Halt State α} (h : Advance s t u v)
    (k : PairedEnds Q u v outcome outcome') : PairedEnds Q s t outcome outcome' := by
  cases k with
  | ok advance value => exact .ok (h.trans advance) value
  | error advance => exact .error (h.trans advance)

/-- Steps that end in the same way from all paired states at a number of allocations. Values are
related at the number that the first step comes to. -/
def InStep (M : Pairing) (n : Nat) (Q : Nat → α → α → Prop) (step twin : Eval α) : Prop :=
  ∀ s t, PairedStates M n s t → PairedEnds Q s t (step s) (twin t)

namespace InStep

variable {Q : Nat → α → α → Prop} {R : Nat → β → β → Prop}

theorem pure {a b : α} (h : Q n a b) : InStep M n Q (Pure.pure a) (Pure.pure b) := by
  intro s t hst
  have hQ : Q s.allocated a b := hst.allocated.symm ▸ h
  exact .ok (.refl s t) hQ

theorem bind {step twin : Eval α} {next next' : α → Eval β} (h : InStep M n Q step twin)
    (k : ∀ m a b, n ≤ m → Q m a b → InStep M m R (next a) (next' b)) :
    InStep M n R (step >>= next) (twin >>= next') := by
  intro s t hst
  have hstep := h s t hst
  show PairedEnds R s t (EStateM.bind step next s) (EStateM.bind twin next' t)
  unfold EStateM.bind
  generalize step s = outcome at hstep ⊢
  generalize twin t = outcome' at hstep ⊢
  cases hstep with
  | @ok a b u v advance value =>
    have hle : n ≤ u.allocated := hst.allocated ▸ advance.le
    exact .trans advance (k u.allocated a b hle value u v (hst.advance advance))
  | error advance => exact .error advance

theorem throw (halt : Halt) :
    InStep M n Q (MonadExcept.throw halt) (MonadExcept.throw halt) :=
  fun s t _ => .error (.refl s t)

theorem fail (fault : Fault) (place : Position) :
    InStep M n Q (Evaluation.fail fault place) (Evaluation.fail fault place) :=
  .throw _

theorem lift (outcome : Except Diagnostic α) :
    InStep M n (fun _ => Eq) (Evaluation.lift outcome) (Evaluation.lift outcome) := by
  cases outcome with
  | ok a => exact .pure rfl
  | error d => exact .throw (.fault d)

theorem resolve (name : String) (place : Position) :
    InStep M n (fun m => Symbol.Paired (M.lists m) M.functions)
      (Evaluation.resolve name place) (Evaluation.resolve name place) := by
  intro s t hst
  have hfound := hst.scopes.resolve? name
  show PairedEnds _ s t (Evaluation.lift (s.scopes.resolve name place) s)
    (Evaluation.lift (t.scopes.resolve name place) t)
  unfold Scopes.resolve
  generalize s.scopes.resolve? name = found at hfound ⊢
  generalize t.scopes.resolve? name = found' at hfound ⊢
  cases hfound with
  | some hsymbol =>
    refine .ok (.refl s t) ?_
    rw [hst.allocated]
    exact hsymbol
  | none => exact .error (.refl s t)

/-- A new list on each side: from now on one stands for the other. -/
theorem newList {vs ws : List Value} (h : M.ValueLists n vs ws) :
    InStep M n M.Values (Evaluation.newList vs) (Evaluation.newList ws) := by
  intro s t hst
  refine .ok (.allocate s t) ?_
  have hnext : M.lists (s.allocated + 1) s.allocated t.allocated :=
    M.lists_next (hst.allocated.symm ▸ hst.next)
  exact .list hnext (Pairing.ValueLists.mono (hst.allocated ▸ Nat.le_succ _) h)

theorem countCall (callee : String) :
    InStep M n (fun _ => Eq) (modify fun s => { s with calls := callee :: s.calls })
      (modify fun s => { s with calls := callee :: s.calls }) :=
  fun s t _ => .ok (.call callee s t) rfl

theorem applyBuiltin (b : Builtin) {vs ws : List Value} (h : M.ValueLists n vs ws)
    (place : Position) :
    InStep M n M.Values (Evaluation.applyBuiltin b vs place)
      (Evaluation.applyBuiltin b ws place) := by
  intro s t hst
  have hresult := Pairing.apply_paired b hst.next h place
  rw [← hst.allocated] at hresult
  show PairedEnds _ s t
    (EStateM.bind (Evaluation.lift (b.apply s.allocated vs place))
      (fun v _ => .ok v { s with allocated := s.allocated + 1 }) s)
    (EStateM.bind (Evaluation.lift (b.apply t.allocated ws place))
      (fun v _ => .ok v { t with allocated := t.allocated + 1 }) t)
  generalize b.apply s.allocated vs place = result at hresult ⊢
  generalize b.apply t.allocated ws place = result' at hresult ⊢
  cases hresult with
  | ok hvalue => exact .ok (.allocate s t) hvalue
  | error d => exact .error (.refl s t)

end InStep

/-! ## Frames -/

section Frames

variable {lists : Nat → Nat → Prop} {functions : Declaration → Declaration → Prop}

/-- Parameters have been bound in paired frames, or both times could not be. -/
inductive BoundAlike (lists : Nat → Nat → Prop) (functions : Declaration → Declaration → Prop)
    (s t : State) (global global' : Scope) :
    EStateM.Result Halt State Unit → EStateM.Result Halt State Unit → Prop
  | ok {frame frame' : Scope} (frames : Scope.Paired lists functions frame frame') :
      BoundAlike lists functions s t global global'
        (.ok () { s with scopes := ⟨global, [frame]⟩ })
        (.ok () { t with scopes := ⟨global', [frame']⟩ })
  | error (halt : Halt) (frame frame' : Scope) :
      BoundAlike lists functions s t global global'
        (.error halt { s with scopes := ⟨global, [frame]⟩ })
        (.error halt { t with scopes := ⟨global', [frame']⟩ })

theorem declareParameters_paired {s t : State} {global global' : Scope} (qs : List Param)
    {frame frame' : Scope} (hframe : Scope.Paired lists functions frame frame') :
    BoundAlike lists functions s t global global'
      (declareParameters qs { s with scopes := ⟨global, [frame]⟩ })
      (declareParameters qs { t with scopes := ⟨global', [frame']⟩ }) := by
  induction qs generalizing frame frame' with
  | nil => exact .ok hframe
  | cons q qs ih =>
    let symbol : Symbol := .parameter q.name q.type.toTy
    have hcons : ∀ u : State, declareParameters (q :: qs) u =
        EStateM.bind (lift (u.scopes.declare symbol q.span.start))
          (fun scopes _ => declareParameters qs { u with scopes }) u := fun _ => rfl
    rw [hcons, hcons, Scopes.declare_frame, Scopes.declare_frame, Scope.declare, Scope.declare]
    have htaken : Option.Rel (Symbol.Paired lists functions)
        (frame.get? symbol.name) (frame'.get? symbol.name) := hframe.get? q.name
    generalize frame.get? symbol.name = found at htaken ⊢
    generalize frame'.get? symbol.name = found' at htaken ⊢
    cases htaken with
    | some _ => exact .error _ frame frame'
    | none => exact ih (hframe.append ⟨rfl, rfl, .none, .none⟩)

theorem bindParameters_paired {s t : State} {global global' : Scope} (qs : List Param)
    {vs ws : List Value} {frame frame' : Scope}
    (hframe : Scope.Paired lists functions frame frame')
    (hvalues : List.Forall₂ (Value.Paired lists functions) vs ws) :
    BoundAlike lists functions s t global global'
      (bindParameters qs vs { s with scopes := ⟨global, [frame]⟩ })
      (bindParameters qs ws { t with scopes := ⟨global', [frame']⟩ }) := by
  have hdeclared : BoundAlike lists functions s t global global'
      (declareParameters qs { s with scopes := ⟨global, [frame]⟩ })
      (declareParameters qs { t with scopes := ⟨global', [frame']⟩ }) :=
    declareParameters_paired qs hframe
  change BoundAlike lists functions s t global global'
    (EStateM.bind (declareParameters qs) _ _) (EStateM.bind (declareParameters qs) _ _)
  unfold EStateM.bind
  generalize declareParameters qs { s with scopes := ⟨global, [frame]⟩ } = outcome at hdeclared ⊢
  generalize declareParameters qs { t with scopes := ⟨global', [frame']⟩ } = outcome'
    at hdeclared ⊢
  cases hdeclared with
  | ok frames => exact .ok (frames.bind hvalues)
  | error halt inner inner' => exact .error halt inner inner'

end Frames

/-- A step in a frame with the same parameters, bound to paired values, on the global scopes. The
run leaves its frame as it was, and with it the global scope below. -/
theorem InStep.inFrame {Q : Nat → α → α → Prop} {step twin : Eval α} (qs : List Param)
    {vs ws : List Value} (hvalues : M.ValueLists n vs ws) (h : InStep M n Q step twin) :
    InStep M n Q (Evaluation.inFrame do bindParameters qs vs; step)
      (Evaluation.inFrame do bindParameters qs ws; twin) := by
  intro s t hst
  have hempty : Scope.Paired (M.lists n) M.functions .empty .empty := List.Forall₂.nil
  have hbound : BoundAlike (M.lists n) M.functions s t s.scopes.global t.scopes.global
      (bindParameters qs vs { s with scopes := ⟨s.scopes.global, [.empty]⟩ })
      (bindParameters qs ws { t with scopes := ⟨t.scopes.global, [.empty]⟩ }) :=
    bindParameters_paired qs hempty hvalues
  show PairedEnds Q s t (Evaluation.inFrame (EStateM.bind (bindParameters qs vs) fun _ => step) s)
    (Evaluation.inFrame (EStateM.bind (bindParameters qs ws) fun _ => twin) t)
  unfold Evaluation.inFrame Scopes.enterFrame EStateM.bind
  dsimp only
  generalize bindParameters qs vs { s with scopes := ⟨s.scopes.global, [.empty]⟩ } = bound
    at hbound ⊢
  generalize bindParameters qs ws { t with scopes := ⟨t.scopes.global, [.empty]⟩ } = bound'
    at hbound ⊢
  cases hbound with
  | error halt frame frame' => exact .error (.refl s t)
  | @ok frame frame' hframes =>
    have hinside := h { s with scopes := ⟨s.scopes.global, [frame]⟩ }
      { t with scopes := ⟨t.scopes.global, [frame']⟩ }
      ⟨hst.allocated, hst.next, hst.scopes.global, .cons hframes .nil⟩
    dsimp only
    generalize step { s with scopes := ⟨s.scopes.global, [frame]⟩ } = outcome at hinside ⊢
    generalize twin { t with scopes := ⟨t.scopes.global, [frame']⟩ } = outcome' at hinside ⊢
    cases hinside with
    | ok advance value => exact .ok advance.leave value
    | error advance => exact .error advance.leave

/-! ## Expressions and bodies -/

section Expressions

theorem asBoolean_inStep {e : Expr} {step twin : Eval Value} (h : InStep M n M.Values step twin) :
    InStep M n (fun _ => Eq) (asBoolean e step) (asBoolean e twin) := by
  refine .bind h fun m v w _ hv => ?_
  cases hv with
  | boolean b => exact .pure rfl
  | real | text | list | function | type => exact .fail _ _

theorem asReal_inStep {e : Expr} {step twin : Eval Value} (h : InStep M n M.Values step twin) :
    InStep M n (fun _ => Eq) (asReal e step) (asReal e twin) := by
  refine .bind h fun m v w _ hv => ?_
  cases hv with
  | real x => exact .pure rfl
  | boolean | text | list | function | type => exact .fail _ _

theorem asList_inStep {e : Expr} {step twin : Eval Value} (h : InStep M n M.Values step twin) :
    InStep M n M.ValueLists (asList e step) (asList e twin) := by
  refine .bind h fun m v w _ hv => ?_
  cases hv with
  | list _ helements => exact .pure helements
  | boolean | real | text | function | type => exact .fail _ _

theorem calleeOf_inStep (callee : String) (place : Position) :
    InStep M n (fun _ => M.functions) (calleeOf callee place) (calleeOf callee place) := by
  refine .bind (.resolve callee place) fun m symbol symbol' _ hsymbol => ?_
  have hdeclaration := hsymbol.declaration
  generalize symbol.declaration? = found at hdeclaration ⊢
  generalize symbol'.declaration? = found' at hdeclaration ⊢
  cases hdeclaration with
  | some hd => exact .pure hd
  | none => exact .fail _ _

theorem valueOf_inStep (name : String) (place : Position) :
    InStep M n M.Values (valueOf name place) (valueOf name place) := by
  refine .bind (.resolve name place) fun m symbol symbol' _ hsymbol => ?_
  have hvalue := hsymbol.value
  have hdeclaration := hsymbol.declaration
  generalize symbol.value = value at hvalue ⊢
  generalize symbol'.value = value' at hvalue ⊢
  generalize symbol.declaration? = found at hdeclaration ⊢
  generalize symbol'.declaration? = found' at hdeclaration ⊢
  cases hvalue with
  | some hv => exact .pure hv
  | none =>
    cases hdeclaration with
    | some hd => exact .pure (.function hd)
    | none => exact .fail _ _

theorem argument_inStep (e : Expr) {step twin : Eval Value}
    (h : ∀ m, InStep M m M.Values step twin) :
    InStep M n M.Values (argument e step) (argument e twin) := by
  cases e with
  | identifier span name =>
    refine .bind (.resolve name span.start) fun m symbol symbol' _ hsymbol => ?_
    rw [hsymbol.isUnbound]
    split
    · rw [hsymbol.type]
      exact .pure (.type _)
    · exact h m
  | boolean | number | text | call | unary | binary | conditional | list => exact h n

/-- Calls that go in step where their functions stand for each other and their arguments are
paired. -/
def CallsInStep (M : Pairing) (call twin : Call) : Prop :=
  ∀ n callee place d e vs ws, M.functions d e → M.ValueLists n vs ws →
    InStep M n M.Values (call callee place d vs) (twin callee place e ws)

variable {mode : ListEquality} {call twin : Call}

mutual

/-- Values of operands that have been evaluated are older than the runs of those that follow, so
they stay paired. -/
theorem evaluate_inStep (h : CallsInStep M call twin) : ∀ (e : Expr) (n : Nat),
    InStep M n M.Values (evaluate mode call e) (evaluate mode twin e)
  | .boolean _ b, _ => .pure (.boolean b)
  | .number _ x, _ => .pure (.real x)
  | .text _ s, _ => .pure (.text s)
  | .identifier span name, _ => valueOf_inStep name span.start
  | .call span callee arguments, n => by
    refine .bind (calleeOf_inStep callee span.start) fun m d e _ hd => ?_
    refine .bind (evaluateArguments_inStep h arguments m) fun k vs ws _ hvalues => ?_
    exact h k callee span.start d e vs ws hd hvalues
  | .unary _ .not operand, n => by
    refine .bind (asBoolean_inStep (evaluate_inStep h operand n)) fun m a b _ hab => ?_
    cases hab
    exact .pure (.boolean _)
  | .unary _ .negate operand, n => by
    refine .bind (asReal_inStep (evaluate_inStep h operand n)) fun m x y _ hxy => ?_
    cases hxy
    exact .pure (.real _)
  | .binary span op left right, n => by
    have hleft := evaluate_inStep h left n
    have hright := evaluate_inStep h right
    cases op with
    | and | or =>
      refine .bind (asBoolean_inStep hleft) fun m a a' _ ha => ?_
      refine .bind (asBoolean_inStep (hright m)) fun k b b' _ hb => ?_
      cases ha
      cases hb
      exact .pure (.boolean _)
    | equals =>
      refine .bind hleft fun m v v' _ hv => ?_
      refine .bind (hright m) fun k w w' hle hw => ?_
      rw [Pairing.equal_paired mode span.start (hv.mono hle) hw]
      refine .bind (.lift _) fun j a b _ hab => ?_
      cases hab
      exact .pure (.boolean _)
    | concat =>
      refine .bind (asList_inStep hleft) fun m vs vs' _ hvs => ?_
      refine .bind (asList_inStep (hright m)) fun k ws ws' hle hws => ?_
      exact .newList (List.rel_append (hvs.mono hle) hws)
    | compare | arithmetic =>
      refine .bind (asReal_inStep hleft) fun m x x' _ hx => ?_
      refine .bind (asReal_inStep (hright m)) fun k y y' _ hy => ?_
      cases hx
      cases hy
      first | exact .pure (.boolean _) | exact .pure (.real _)
  | .conditional _ condition whenTrue whenFalse, n => by
    refine .bind (asBoolean_inStep (evaluate_inStep h condition n)) fun m a b _ hab => ?_
    cases hab
    split
    · exact evaluate_inStep h whenTrue m
    · exact evaluate_inStep h whenFalse m
  | .list _ elements, n =>
    .bind (evaluateElements_inStep h elements n) fun _ _ _ _ hvalues => .newList hvalues

theorem evaluateArguments_inStep (h : CallsInStep M call twin) : ∀ (es : List Expr) (n : Nat),
    InStep M n M.ValueLists (evaluateArguments mode call es) (evaluateArguments mode twin es)
  | [], _ => .pure .nil
  | e :: rest, n => by
    refine .bind (argument_inStep e (evaluate_inStep h e)) fun m v w _ hv => ?_
    refine .bind (evaluateArguments_inStep h rest m) fun k vs ws hle hvs => ?_
    exact .pure (.cons (hv.mono hle) hvs)

theorem evaluateElements_inStep (h : CallsInStep M call twin) : ∀ (es : List Expr) (n : Nat),
    InStep M n M.ValueLists (evaluateElements mode call es) (evaluateElements mode twin es)
  | [], _ => .pure .nil
  | e :: rest, n => by
    refine .bind (evaluate_inStep h e n) fun m v w _ hv => ?_
    refine .bind (evaluateElements_inStep h rest m) fun k vs ws hle hvs => ?_
    exact .pure (.cons (hv.mono hle) hvs)

end

theorem evaluateBranches_inStep (h : CallsInStep M call twin) (otherwise : Expr) :
    ∀ (branches : List Branch) (n : Nat),
      InStep M n M.Values (evaluateBranches mode call otherwise branches)
        (evaluateBranches mode twin otherwise branches) := by
  intro branches
  induction branches with
  | nil => exact evaluate_inStep h otherwise
  | cons branch rest ih =>
    intro n
    refine .bind (asBoolean_inStep (evaluate_inStep h branch.guard n)) fun m a b _ hab => ?_
    cases hab
    split
    · exact evaluate_inStep h branch.action m
    · exact ih m

theorem evaluateBody_inStep (h : CallsInStep M call twin) (body : Body) (n : Nat) :
    InStep M n M.Values (evaluateBody mode call body) (evaluateBody mode twin body) := by
  cases body with
  | inline value => exact evaluate_inStep h value n
  | piecewise span branches otherwise => exact evaluateBranches_inStep h otherwise branches n

end Expressions

/-! ## Runs -/

/-- A call of functions that are called alike. Where they are no builtins, they have one body. -/
theorem callWith_inStep {run : Body → Eval Value}
    (h : ∀ body n, InStep M n M.Values (run body) (run body)) :
    CallsInStep M (callWith run) (callWith run) := by
  intro n callee place d e vs ws hfunctions hvalues
  have halike := M.calledAlike hfunctions
  refine .bind (.countCall callee) fun m _ _ hle _ => ?_
  rw [halike.parameters, halike.name]
  refine .inFrame d.parameters (hvalues.mono hle) ?_
  cases hbuiltin : Builtin.ofName? d.name with
  | some b => exact .applyBuiltin b (hvalues.mono hle) place
  | none =>
    rw [halike.body hbuiltin]
    exact h d.body m

/-- Every call runs another body at the depth below, in a state that has come further. -/
theorem runBody_inStep (M : Pairing) (mode : ListEquality) :
    ∀ (depth : Nat) (body : Body) (n : Nat),
      InStep M n M.Values (runBody mode depth body) (runBody mode depth body) := by
  intro depth
  induction depth with
  | zero => exact fun _ _ => .throw .tooDeep
  | succ depth ih => exact evaluateBody_inStep (callWith_inStep ih)

theorem runExpr_inStep (M : Pairing) (mode : ListEquality) (depth : Nat) (e : Expr) (n : Nat) :
    InStep M n M.Values (runExpr mode depth e) (runExpr mode depth e) :=
  evaluate_inStep (callWith_inStep (runBody_inStep M mode depth)) e n

/-- An entry is run without arguments, so its name does not matter, but it is never a builtin: its
own body is run. -/
theorem runEntry_inStep (M : Pairing) (mode : ListEquality) (depth : Nat) (d : Declaration)
    (n : Nat) : InStep M n M.Values (runEntry mode depth d) (runEntry mode depth d) :=
  .inFrame d.parameters .nil (runBody_inStep M mode depth d.body n)

end Evaluation

end Piecewise
