import Piecewise.Proofs.Evaluation.SharedRuns
import Piecewise.Proofs.Program.Renaming

/-!
# Runs with a parameter renamed

A run of the renamed program keeps pace with a run of the program. Environments have the same
values under the names that these have got, so the values are the same but for the functions among
them, which are renamed themselves. A fault is the same too, unless it names the parameter where the
body of its function uses it; then it names it by the new name.
-/

namespace Piecewise

/-- The faults that name a parameter: it has no value, or it is called. -/
inductive Fault.NamesParameter : (String → Fault) → Prop
  | identifier : NamesParameter unboundIdentifier
  | callee : NamesParameter unboundFunction

namespace Renaming

variable {r : Renaming} {p : Program} {d : Declaration}

/-- Two diagnostics that are the same but for the name of the renamed parameter. It is renamed in
its own function only: a diagnostic that has the old name is kept where another function uses a
name like it. -/
inductive Reports (r : Renaming) (p : Program) : Diagnostic → Diagnostic → Prop
  | kept {report : Diagnostic}
      (h : ∀ fault place, Fault.NamesParameter fault → report = (fault r.old).at place →
        ∃ d ∈ p.declarations, d.name ≠ r.function ∧ ⟨r.old, place⟩ ∈ d.body.uses) :
      Reports r p report report
  | renamed {fault : String → Fault} {d : Declaration} {place : Position}
      (hfault : Fault.NamesParameter fault) (hd : d ∈ p.declarations)
      (hname : d.name = r.function) (huse : ⟨r.old, place⟩ ∈ d.body.uses) :
      Reports r p ((fault r.old).at place) ((fault r.new).at place)

namespace Reports

/-- Diagnostics that name no parameter are the same in both programs. -/
theorem of_ne {report : Diagnostic}
    (h : ∀ name place, report ≠ (Fault.unboundIdentifier name).at place ∧
      report ≠ (Fault.unboundFunction name).at place) : r.Reports p report report := by
  apply kept
  intro fault place hfault hreport
  cases hfault with
  | identifier => exact absurd hreport (h r.old place).1
  | callee => exact absurd hreport (h r.old place).2

/-- A comparison that is not supported names no parameter. -/
theorem of_unsupportedEquality (kind : String) (place : Position) :
    r.Reports p ((Fault.unsupportedEquality kind).at place)
      ((Fault.unsupportedEquality kind).at place) :=
  of_ne fun _ _ => ⟨nofun, nofun⟩

/-- A fault at a name that the body of a function uses. -/
theorem of_use {fault : String → Fault} (hfault : Fault.NamesParameter fault)
    (hd : d ∈ p.declarations) {name : String} {place : Position}
    (huse : ⟨name, place⟩ ∈ d.body.uses) :
    r.Reports p ((fault name).at place) ((fault (r.inside d.name name)).at place) := by
  by_cases hrenamed : d.name = r.function ∧ name = r.old
  · obtain ⟨hfunction, rfl⟩ := hrenamed
    rw [inside, if_pos ⟨hfunction, rfl⟩]
    exact .renamed hfault hd hfunction huse
  · rw [inside_of_ne hrenamed]
    apply kept
    intro fault' place' hfault' hsame
    have hold : name = r.old ∧ place = place' := by
      cases hfault <;> cases hfault' <;> cases hsame <;> exact ⟨rfl, rfl⟩
    obtain ⟨rfl, rfl⟩ := hold
    exact ⟨d, hd, fun hfunction => hrenamed ⟨hfunction, rfl⟩, huse⟩

end Reports

/-! ## Values -/

theorem values_eq_map (vs : List Value) : r.values vs = vs.map r.value := by
  induction vs with
  | nil => rfl
  | cons v vs ih => rw [values, ih, List.map_cons]

theorem values_append (vs ws : List Value) : r.values (vs ++ ws) = r.values vs ++ r.values ws := by
  simp [values_eq_map]

mutual

/-- Values are shown alike in both programs. -/
theorem shown_value : ∀ v : Value, (r.value v).shown = v.shown
  | .list allocation elements => by
    rw [value, Value.shown, Value.shown, shownAll_values elements]
  | .boolean _ | .real _ | .text _ | .function _ | .type _ => rfl

theorem shownAll_values : ∀ vs : List Value, Value.shownAll (r.values vs) = Value.shownAll vs
  | [] => rfl
  | v :: rest => by
    rw [values, Value.shownAll, Value.shownAll, shown_value v, shownAll_values rest]

end

mutual

theorem elementsEqual_value (mode : ListEquality) : ∀ v w : Value,
    Value.elementsEqual mode (r.value v) (r.value w) = Value.elementsEqual mode v w
  | .list i vs, w => by
    cases w with
    | list j ws =>
      simp only [value, Value.elementsEqual, listsEqual_values mode vs ws]
    | boolean | real | text | function | type => rfl
  | .boolean _, w | .real _, w | .text _, w | .function _, w | .type _, w => by
    cases w <;> rfl

theorem listsEqual_values (mode : ListEquality) : ∀ vs ws : List Value,
    Value.listsEqual mode (r.values vs) (r.values ws) = Value.listsEqual mode vs ws
  | [], ws => by cases ws <;> rfl
  | v :: vs, [] => rfl
  | v :: vs, w :: ws => by
    rw [values, values, Value.listsEqual, Value.listsEqual, elementsEqual_value mode v w,
      listsEqual_values mode vs ws]

end

/-- Values are compared alike in both programs. -/
theorem equal_value (mode : ListEquality) (place : Position) (v w : Value) :
    Value.equal mode place (r.value v) (r.value w) = Value.equal mode place v w := by
  cases v <;> cases w <;> simp [value, Value.equal, listsEqual_values, Value.scalarsEqual,
    Value.kindName]

/-- Builtins give the same on renamed values. -/
theorem apply_values (b : Builtin) (fresh : Nat) (vs : List Value) (place : Position) :
    b.apply fresh (r.values vs) place = (b.apply fresh vs place).map r.value := by
  cases vs with
  | nil => cases b <;> rfl
  | cons v vs =>
    cases v with
    | list i elements => cases elements <;> cases b <;> rfl
    | boolean | real | text | function | type => cases b <;> rfl

end Renaming

namespace Stackless

open Evaluation (Halt)

variable {r : Renaming} {p : Program} {d : Declaration}

/-! ## Environments -/

def Binding.renamed (r : Renaming) (within : String) (b : Binding) : Binding :=
  ⟨r.inside within b.name, b.type, b.value.map r.value⟩

def Found.renamed (r : Renaming) (within : String) : Found → Found
  | parameter b => parameter (b.renamed r within)
  | function d => function (r.declaration d)

theorem bindable?_value (v : Value) : bindable? (r.value v) = (bindable? v).map r.value := by
  cases v <;> rfl

theorem bindings_renamed (within : String) (qs : List Param) (vs : List Value) :
    bindings (qs.map fun q => { q with name := r.inside within q.name }) (r.values vs) =
      (bindings qs vs).map (Binding.renamed r within) := by
  induction qs generalizing vs with
  | nil => rfl
  | cons q qs ih =>
    cases vs with
    | nil =>
      rw [List.map_cons, Renaming.values, bindings, bindings, List.map_cons]
      exact congrArg _ (ih [])
    | cons v vs =>
      rw [List.map_cons, Renaming.values, bindings, bindings, List.map_cons, ih]
      exact congrArg (fun value => Binding.mk _ _ value :: _) (bindable?_value v)

/-- An environment for the body of a function, in a program with a parameter to be renamed. -/
structure Inside (r : Renaming) (p : Program) (d : Declaration) (env : List Binding) : Prop
    extends r.Site p d where
  names : env.map Binding.name = d.parameterNames

variable {env : List Binding}

/-- What is looked up for a name that the body of a function uses: in the renamed program it is
renamed, and if it is a function then it goes by the same name. -/
theorem lookup_renamed (h : Inside r p d env) {name : String} {place : Position}
    (huse : ⟨name, place⟩ ∈ d.body.uses) :
    lookup (r.program p) (env.map (Binding.renamed r d.name)) (r.inside d.name name) place =
        (lookup p env name place).map (Found.renamed r d.name) ∧
      ∀ f, lookup p env name place = .ok (.function f) →
        f ∈ p.declarations ∧ r.inside d.name name = name := by
  have hnew : name ≠ r.new := h.fits.unused d h.mem _ huse
  have hdeclared : ∀ b ∈ env, b.name ≠ r.new := by
    intro b hb heq
    have hname : b.name ∈ d.parameterNames := h.names ▸ List.mem_map_of_mem hb
    exact h.fits.undeclared.2 d h.mem (heq ▸ hname)
  unfold lookup
  rw [Renaming.find?_renamed Binding.name (fun _ => rfl) hdeclared hnew]
  cases hfound : env.find? fun b => b.name = name with
  | some b => simp [Except.map, Found.renamed]
  | none =>
    have hfree : name ∉ d.parameterNames := by
      rw [← h.names]
      simpa using hfound
    rw [h.inside_of_not_mem hfree, Renaming.find?_program]
    cases hfunction : p.find? name with
    | none => simp [Except.map]
    | some f =>
      have hmem := (Program.mem_of_find? hfunction).1
      simp [Except.map, Found.renamed, hmem]

/-! ## Steps -/

/-- The same outcome, with results as described and the same counted. -/
inductive SameRun {α β : Type} (r : Renaming) (p : Program) (Q : α → β → Prop) :
    EStateM.Result Halt Counters α → EStateM.Result Halt Counters β → Prop
  | ok {a b} (c : Counters) (h : Q a b) : SameRun r p Q (.ok a c) (.ok b c)
  | fault {report report'} (c : Counters) (h : r.Reports p report report') :
      SameRun r p Q (.error (.fault report) c) (.error (.fault report') c)
  | tooDeep (c : Counters) : SameRun r p Q (.error .tooDeep c) (.error .tooDeep c)

/-- Two steps with the same outcome, the second one in the renamed program. -/
def Mirrors {α β : Type} (r : Renaming) (p : Program) (Q : α → β → Prop) (step : Run α)
    (twin : Run β) : Prop :=
  ∀ c, SameRun r p Q (step c) (twin c)

namespace Mirrors

variable {α β γ δ : Type} {Q : α → β → Prop} {R : γ → δ → Prop}

theorem pure {a : α} {b : β} (h : Q a b) : Mirrors r p Q (Pure.pure a) (Pure.pure b) :=
  fun c => .ok c h

theorem bind {step : Run α} {twin : Run β} {next : α → Run γ} {next' : β → Run δ}
    (h : Mirrors r p Q step twin) (k : ∀ a b, Q a b → Mirrors r p R (next a) (next' b)) :
    Mirrors r p R (step >>= next) (twin >>= next') := by
  intro c
  have hfirst := h c
  show SameRun r p R (EStateM.bind step next c) (EStateM.bind twin next' c)
  unfold EStateM.bind
  generalize step c = outcome at hfirst ⊢
  generalize twin c = outcome' at hfirst ⊢
  cases hfirst with
  | ok c' hab => exact k _ _ hab c'
  | fault c' hreport => exact .fault c' hreport
  | tooDeep c' => exact .tooDeep c'

theorem throw {report report' : Diagnostic} (h : r.Reports p report report') :
    Mirrors r p Q (MonadExcept.throw (.fault report)) (MonadExcept.throw (.fault report')) :=
  fun c => .fault c h

/-- A computation that counts nothing, with a result that is renamed. -/
theorem lift {outcome : Except Diagnostic α} {outcome' : Except Diagnostic β} {change : α → β}
    (houtcome : outcome' = outcome.map change) (h : ∀ a, outcome = .ok a → Q a (change a))
    (hreport : ∀ report, outcome = .error report → r.Reports p report report) :
    Mirrors r p Q (Stackless.lift outcome) (Stackless.lift outcome') := by
  subst houtcome
  cases outcome with
  | ok a => exact pure (h a rfl)
  | error report => exact throw (hreport report rfl)

theorem allocate : Mirrors r p (fun a b : Nat => b = a) Stackless.allocate Stackless.allocate :=
  fun _ => .ok _ rfl

theorem get : Mirrors r p (fun a b : Counters => b = a) MonadState.get MonadState.get :=
  fun c => .ok c rfl

theorem count (callee : String) :
    Mirrors r p (fun _ _ => True) (Stackless.count callee) (Stackless.count callee) :=
  fun _ => .ok _ trivial

end Mirrors

def SameValue (r : Renaming) (v w : Value) : Prop := w = r.value v

def SameValues (r : Renaming) (vs ws : List Value) : Prop := ws = r.values vs

section Expressions

variable {mode : ListEquality} {invoke invoke' : Invoke}

theorem toBoolean_mirrors {v w : Value} (h : SameValue r v w) (e : Expr) (ρ : String → String) :
    Mirrors r p Eq (lift (toBoolean e v)) (lift (toBoolean (e.mapNames ρ) w)) := by
  rw [h]
  cases v with
  | boolean b => exact .pure rfl
  | real | text | list | function | type =>
    simp only [toBoolean, Renaming.value, Expr.start_mapNames]
    exact .throw (.of_ne fun _ _ => ⟨nofun, nofun⟩)

theorem toReal_mirrors {v w : Value} (h : SameValue r v w) (e : Expr) (ρ : String → String) :
    Mirrors r p Eq (lift (toReal e v)) (lift (toReal (e.mapNames ρ) w)) := by
  rw [h]
  cases v with
  | real x => exact .pure rfl
  | boolean | text | list | function | type =>
    simp only [toReal, Renaming.value, Expr.start_mapNames]
    exact .throw (.of_ne fun _ _ => ⟨nofun, nofun⟩)

theorem toElements_mirrors {v w : Value} (h : SameValue r v w) (e : Expr) (ρ : String → String) :
    Mirrors r p (SameValues r) (lift (toElements e v)) (lift (toElements (e.mapNames ρ) w)) := by
  rw [h]
  cases v with
  | list i elements => exact .pure rfl
  | boolean | real | text | function | type =>
    simp only [toElements, Renaming.value, Expr.start_mapNames]
    exact .throw (.of_ne fun _ _ => ⟨nofun, nofun⟩)

theorem equal_mirrors {v v' w w' : Value} (hv : SameValue r v v') (hw : SameValue r w w')
    (place : Position) :
    Mirrors r p Eq (lift (Value.equal mode place v w)) (lift (Value.equal mode place v' w')) := by
  rw [hv, hw]
  apply Mirrors.lift
  · rw [Renaming.equal_value, Except.map_id]
    rfl
  · exact fun _ _ => rfl
  · intro report hreport
    unfold Value.equal at hreport
    split at hreport <;> cases hreport <;> exact .of_unsupportedEquality _ _

theorem applyBinary_mirrors {first second first' second' : Run Value}
    (hfirst : Mirrors r p (SameValue r) first first')
    (hsecond : Mirrors r p (SameValue r) second second') (place : Position) (op : BinaryOp)
    (left right : Expr) (ρ : String → String) :
    Mirrors r p (SameValue r) (applyBinary mode place op left right first second)
      (applyBinary mode place op (left.mapNames ρ) (right.mapNames ρ) first' second') := by
  cases op with
  | and | or =>
    refine .bind hfirst fun v v' hv => .bind (toBoolean_mirrors hv left ρ) ?_
    rintro a _ rfl
    refine .bind hsecond fun w w' hw => .bind (toBoolean_mirrors hw right ρ) ?_
    rintro b _ rfl
    exact .pure rfl
  | compare _ | arithmetic _ =>
    refine .bind hfirst fun v v' hv => .bind (toReal_mirrors hv left ρ) ?_
    rintro a _ rfl
    refine .bind hsecond fun w w' hw => .bind (toReal_mirrors hw right ρ) ?_
    rintro b _ rfl
    exact .pure rfl
  | equals =>
    refine .bind hfirst fun v v' hv => .bind hsecond fun w w' hw => ?_
    refine .bind (equal_mirrors hv hw place) ?_
    rintro b _ rfl
    exact .pure rfl
  | concat =>
    refine .bind hfirst fun v v' hv => .bind (toElements_mirrors hv left ρ) fun vs vs' hvs => ?_
    refine .bind hsecond fun w w' hw => .bind (toElements_mirrors hw right ρ) fun ws ws' hws => ?_
    refine .bind .allocate ?_
    rintro i _ rfl
    refine .pure ?_
    rw [SameValue, Renaming.value, Renaming.values_append, hvs, hws]

/-- What a name of the body stands for, in both programs. -/
theorem lookup_mirrors (h : Inside r p d env) {name : String} {place : Position}
    (huse : ⟨name, place⟩ ∈ d.body.uses) :
    Mirrors r p (fun found found' => found' = found.renamed r d.name ∧
        ∀ f, found = .function f → f ∈ p.declarations ∧ r.inside d.name name = name)
      (lift (lookup p env name place))
      (lift (lookup (r.program p) (env.map (Binding.renamed r d.name)) (r.inside d.name name)
        place)) := by
  obtain ⟨hlookup, hfunction⟩ := lookup_renamed h huse
  apply Mirrors.lift hlookup
  · intro found hfound
    exact ⟨rfl, fun f hf => hfunction f (hf ▸ hfound)⟩
  · intro report hreport
    unfold lookup at hreport
    split at hreport
    · cases hreport
    · split at hreport
      · cases hreport
      · cases hreport
        exact .of_ne fun _ _ => ⟨nofun, nofun⟩

theorem toValue_mirrors (hd : d ∈ p.declarations) {name : String} {place : Position}
    (huse : ⟨name, place⟩ ∈ d.body.uses) (found : Found) :
    Mirrors r p (SameValue r) (lift (toValue name place found))
      (lift (toValue (r.inside d.name name) place (found.renamed r d.name))) := by
  cases found with
  | function f => exact .pure rfl
  | parameter b =>
    obtain ⟨_, _, value⟩ := b
    cases value with
    | some v => exact .pure rfl
    | none => exact .throw (.of_use .identifier hd huse)

theorem toFunction_mirrors (hd : d ∈ p.declarations) {callee : String} {place : Position}
    (huse : ⟨callee, place⟩ ∈ d.body.uses) {found : Found}
    (hfound : ∀ f, found = .function f → f ∈ p.declarations ∧ r.inside d.name callee = callee) :
    Mirrors r p (fun f f' => f' = r.declaration f ∧ f ∈ p.declarations ∧
        r.inside d.name callee = callee)
      (lift (toFunction callee place found))
      (lift (toFunction (r.inside d.name callee) place (found.renamed r d.name))) := by
  cases found with
  | function f => exact .pure ⟨rfl, hfound f rfl⟩
  | parameter b => exact .throw (.of_use .callee hd huse)

theorem toArgument_renamed (found : Found) :
    toArgument (found.renamed r d.name) = r.value (toArgument found) := by
  cases found with
  | function f => rfl
  | parameter b =>
    obtain ⟨_, _, value⟩ := b
    cases value <;> rfl

def InvokesMirror (r : Renaming) (p : Program) (invoke invoke' : Invoke) : Prop :=
  ∀ callee place vs ws, ∀ f ∈ p.declarations, SameValues r vs ws →
    Mirrors r p (SameValue r) (invoke callee place f vs) (invoke' callee place (r.declaration f) ws)

mutual

/-- An expression of the body has the same value with the parameter renamed. -/
theorem evaluate_mirrors (h : Inside r p d env) (hcalls : InvokesMirror r p invoke invoke') :
    ∀ e : Expr, e.uses ⊆ d.body.uses →
      Mirrors r p (SameValue r) (evaluate p mode invoke env e)
        (evaluate (r.program p) mode invoke' (env.map (Binding.renamed r d.name))
          (e.mapNames (r.inside d.name)))
  | .boolean _ _, _ | .number _ _, _ | .text _ _, _ => .pure rfl
  | .identifier span name, huses => by
    have huse : ⟨name, span.start⟩ ∈ d.body.uses := huses List.mem_cons_self
    refine .bind (lookup_mirrors h huse) ?_
    rintro found _ ⟨rfl, _⟩
    exact toValue_mirrors h.mem huse found
  | .call span callee arguments, huses => by
    obtain ⟨huse, huses⟩ := List.cons_subset.mp huses
    refine .bind (lookup_mirrors h huse) ?_
    rintro found _ ⟨rfl, hfound⟩
    refine .bind (toFunction_mirrors h.mem huse hfound) ?_
    rintro f _ ⟨rfl, hf, hcallee⟩
    refine .bind (evaluateArguments_mirrors h hcalls arguments huses) fun vs ws hvs => ?_
    rw [hcallee]
    exact hcalls callee span.start vs ws f hf hvs
  | .unary _ .not operand, huses => by
    refine .bind (evaluate_mirrors h hcalls operand huses) fun v w hv => ?_
    refine .bind (toBoolean_mirrors hv operand _) ?_
    rintro b _ rfl
    exact .pure rfl
  | .unary _ .negate operand, huses => by
    refine .bind (evaluate_mirrors h hcalls operand huses) fun v w hv => ?_
    refine .bind (toReal_mirrors hv operand _) ?_
    rintro x _ rfl
    exact .pure rfl
  | .binary span op left right, huses => by
    obtain ⟨hleft, hright⟩ := List.append_subset.mp huses
    exact applyBinary_mirrors (evaluate_mirrors h hcalls left hleft)
      (evaluate_mirrors h hcalls right hright) span.start op left right _
  | .conditional _ condition whenTrue whenFalse, huses => by
    obtain ⟨hcondition, huses⟩ := List.append_subset.mp huses
    obtain ⟨htrue, hfalse⟩ := List.append_subset.mp huses
    refine .bind (evaluate_mirrors h hcalls condition hcondition) fun v w hv => ?_
    refine .bind (toBoolean_mirrors hv condition _) ?_
    rintro b _ rfl
    cases b with
    | true => exact evaluate_mirrors h hcalls whenTrue htrue
    | false => exact evaluate_mirrors h hcalls whenFalse hfalse
  | .list _ elements, huses => by
    refine .bind (evaluateElements_mirrors h hcalls elements huses) fun vs ws hvs => ?_
    refine .bind .allocate ?_
    rintro i _ rfl
    refine .pure ?_
    rw [SameValue, Renaming.value, hvs]

theorem evaluateArguments_mirrors (h : Inside r p d env)
    (hcalls : InvokesMirror r p invoke invoke') :
    ∀ es : List Expr, Expr.usesAll es ⊆ d.body.uses →
      Mirrors r p (SameValues r) (evaluateArguments p mode invoke env es)
        (evaluateArguments (r.program p) mode invoke' (env.map (Binding.renamed r d.name))
          (Expr.mapNamesAll (r.inside d.name) es))
  | [], _ => .pure rfl
  | e :: rest, huses => by
    obtain ⟨hfirst, hrest⟩ := List.append_subset.mp huses
    have hvalue := evaluate_mirrors h hcalls e hfirst
    have hvalues := evaluateArguments_mirrors h hcalls rest hrest
    have hcons : ∀ {v w}, SameValue r v w → Mirrors r p (SameValues r)
        (do return v :: (← evaluateArguments p mode invoke env rest))
        (do return w :: (← evaluateArguments (r.program p) mode invoke'
          (env.map (Binding.renamed r d.name)) (Expr.mapNamesAll (r.inside d.name) rest))) := by
      intro v w hv
      refine .bind hvalues fun vs ws hvs => .pure ?_
      rw [SameValues, Renaming.values, hv, hvs]
    cases e with
    | identifier span name =>
      refine .bind (lookup_mirrors h (hfirst List.mem_cons_self)) ?_
      rintro found _ ⟨rfl, _⟩
      exact hcons (toArgument_renamed found)
    | boolean | number | text | call | unary | binary | conditional | list =>
      exact .bind hvalue fun v w hv => hcons hv

theorem evaluateElements_mirrors (h : Inside r p d env)
    (hcalls : InvokesMirror r p invoke invoke') :
    ∀ es : List Expr, Expr.usesAll es ⊆ d.body.uses →
      Mirrors r p (SameValues r) (evaluateElements p mode invoke env es)
        (evaluateElements (r.program p) mode invoke' (env.map (Binding.renamed r d.name))
          (Expr.mapNamesAll (r.inside d.name) es))
  | [], _ => .pure rfl
  | e :: rest, huses => by
    obtain ⟨hfirst, hrest⟩ := List.append_subset.mp huses
    refine .bind (evaluate_mirrors h hcalls e hfirst) fun v w hv => ?_
    refine .bind (evaluateElements_mirrors h hcalls rest hrest) fun vs ws hvs => .pure ?_
    rw [SameValues, Renaming.values, hv, hvs]

end

theorem evaluateBranches_mirrors (h : Inside r p d env)
    (hcalls : InvokesMirror r p invoke invoke') {otherwise : Expr} {branches : List Branch}
    (hotherwise : otherwise.uses ⊆ d.body.uses)
    (hbranches : ∀ branch ∈ branches,
      branch.guard.uses ⊆ d.body.uses ∧ branch.action.uses ⊆ d.body.uses) :
    Mirrors r p (SameValue r) (evaluateBranches p mode invoke env otherwise branches)
      (evaluateBranches (r.program p) mode invoke' (env.map (Binding.renamed r d.name))
        (otherwise.mapNames (r.inside d.name))
        (branches.map (Branch.mapNames (r.inside d.name)))) := by
  induction branches with
  | nil => exact evaluate_mirrors h hcalls otherwise hotherwise
  | cons branch rest ih =>
    obtain ⟨⟨hguard, haction⟩, hrest⟩ := List.forall_mem_cons.mp hbranches
    refine .bind (evaluate_mirrors h hcalls branch.guard hguard) fun v w hv => ?_
    refine .bind (toBoolean_mirrors hv branch.guard _) ?_
    rintro b _ rfl
    cases b with
    | true => exact evaluate_mirrors h hcalls branch.action haction
    | false => exact ih hrest

theorem evaluateBody_mirrors (h : Inside r p d env)
    (hcalls : InvokesMirror r p invoke invoke') :
    Mirrors r p (SameValue r) (evaluateBody p mode invoke env d.body)
      (evaluateBody (r.program p) mode invoke' (env.map (Binding.renamed r d.name))
        (d.body.mapNames (r.inside d.name))) := by
  have hparts : ∀ e ∈ d.body.parts, e.uses ⊆ d.body.uses :=
    fun e he use huse => List.mem_flatMap.mpr ⟨e, he, huse⟩
  cases hbody : d.body with
  | inline value =>
    refine evaluate_mirrors h hcalls value (hparts value ?_)
    simp [hbody, Body.parts]
  | piecewise span branches otherwise =>
    refine evaluateBranches_mirrors h hcalls (hparts otherwise ?_) fun branch hbranch => ⟨?_, ?_⟩
    · simp [hbody, Body.parts]
    · apply hparts
      simp only [hbody, Body.parts, List.mem_append, List.mem_flatMap]
      exact Or.inl ⟨branch, hbranch, by simp⟩
    · apply hparts
      simp only [hbody, Body.parts, List.mem_append, List.mem_flatMap]
      exact Or.inl ⟨branch, hbranch, by simp⟩

end Expressions

section Runs

theorem runBuiltin_mirrors {vs ws : List Value} (h : SameValues r vs ws) (b : Builtin)
    (place : Position) :
    Mirrors r p (SameValue r) (runBuiltin b vs place) (runBuiltin b ws place) := by
  rw [h]
  refine .bind .get ?_
  rintro _ c rfl
  refine .bind (Q := SameValue r) (.lift (Renaming.apply_values b c.allocated vs place) ?_ ?_) ?_
  · exact fun _ _ => rfl
  · intro report hreport
    unfold Builtin.apply at hreport
    split at hreport <;> cases hreport <;> exact .of_ne fun _ _ => ⟨nofun, nofun⟩
  · exact fun v w hv => .bind .allocate fun _ _ _ => .pure hv

/-- The body of a function runs alike with the parameter renamed, at every depth: a call runs the
same builtin, or the renamed body at the depth below. -/
theorem runBody_mirrors (h : r.Fits p) (hp : p.names.Nodup) (mode : ListEquality) (depth : Nat) :
    ∀ d ∈ p.declarations, ∀ vs ws, SameValues r vs ws →
      Mirrors r p (SameValue r) (runBody p mode depth (bindings d.parameters vs) d.body)
        (runBody (r.program p) mode depth (bindings (r.declaration d).parameters ws)
          (r.declaration d).body) := by
  induction depth with
  | zero => exact fun d _ vs ws _ c => .tooDeep c
  | succ depth ih =>
    intro d hd vs ws hvs
    have hinside : Inside r p d (bindings d.parameters vs) :=
      ⟨⟨h, hp, hd⟩, names_bindings d.parameters vs⟩
    have hbindings : bindings (r.declaration d).parameters ws =
        (bindings d.parameters vs).map (Binding.renamed r d.name) := by
      rw [hvs]
      exact bindings_renamed d.name d.parameters vs
    rw [runBody, runBody, hbindings]
    apply evaluateBody_mirrors hinside
    intro callee place vs ws f hf hvs
    refine .bind (.count callee) fun _ _ _ => ?_
    have hname : (r.declaration f).name = f.name := rfl
    rw [hname]
    cases Builtin.ofName? f.name with
    | some b => exact runBuiltin_mirrors hvs b place
    | none => exact ih f hf vs ws hvs

theorem runEntry_mirrors (h : r.Fits p) (hp : p.names.Nodup) (mode : ListEquality) (depth : Nat)
    (hd : d ∈ p.declarations) :
    Mirrors r p (SameValue r) (runEntry p mode depth d)
      (runEntry (r.program p) mode depth (r.declaration d)) :=
  runBody_mirrors h hp mode depth d hd [] [] rfl

end Runs

end Stackless

end Piecewise
