import Piecewise.Proofs.Evaluation.Contract

/-!
# Depths

The depth bounds how deeply calls nest, and has no other part in a run. A run that ends within
some depth ends in the same way within every greater one, so the outcome of a run that ends does
not depend on the depth it is given.
-/

namespace Piecewise

namespace Evaluation

variable {α β : Type}

/-- A step that does what another does, unless calls nest too deeply in it. -/
def Approximates (step further : Eval α) : Prop :=
  ∀ s, (∃ t, step s = .error .tooDeep t) ∨ further s = step s

namespace Approximates

theorem refl (step : Eval α) : Approximates step step := fun _ => Or.inr rfl

theorem tooDeep (further : Eval α) : Approximates (throw .tooDeep) further :=
  fun s => Or.inl ⟨s, rfl⟩

theorem bind {step further : Eval α} {next next' : α → Eval β} (h : Approximates step further)
    (k : ∀ a, Approximates (next a) (next' a)) :
    Approximates (step >>= next) (further >>= next') := by
  intro s
  change (∃ t, EStateM.bind step next s = .error .tooDeep t) ∨
    EStateM.bind further next' s = EStateM.bind step next s
  unfold EStateM.bind
  rcases h s with ⟨t, hdeep⟩ | hsame
  · rw [hdeep]
    exact Or.inl ⟨t, rfl⟩
  · rw [hsame]
    cases step s with
    | ok a u => exact k a u
    | error halt u => exact Or.inr rfl

/-- Where calls do not nest too deeply, both steps are one. -/
theorem eq_of_ends {step further : Eval α} (h : Approximates step further) {s : State}
    (hends : ∀ t, step s ≠ .error .tooDeep t) : further s = step s := by
  rcases h s with ⟨t, hdeep⟩ | hsame
  · exact absurd hdeep (hends t)
  · exact hsame

theorem inFrame {step further : Eval α} (h : Approximates step further) :
    Approximates (Evaluation.inFrame step) (Evaluation.inFrame further) := by
  intro s
  rcases h { s with scopes := ⟨s.scopes.global, [.empty]⟩ } with ⟨t, hdeep⟩ | hsame
  · exact Or.inl ⟨_, inFrame_error hdeep⟩
  · refine Or.inr ?_
    cases hstep : step { s with scopes := ⟨s.scopes.global, [.empty]⟩ } with
    | ok a u => rw [inFrame_ok hstep, inFrame_ok (hsame.trans hstep)]
    | error halt u => rw [inFrame_error hstep, inFrame_error (hsame.trans hstep)]

end Approximates

def ApproximatesCalls (call further : Call) : Prop :=
  ∀ callee place d values,
    Approximates (call callee place d values) (further callee place d values)

section Expressions

variable {mode : ListEquality} {call further : Call}

theorem asBoolean_approximates {e : Expr} {step step' : Eval Value}
    (h : Approximates step step') : Approximates (asBoolean e step) (asBoolean e step') :=
  h.bind fun _ => .refl _

theorem asReal_approximates {e : Expr} {step step' : Eval Value}
    (h : Approximates step step') : Approximates (asReal e step) (asReal e step') :=
  h.bind fun _ => .refl _

theorem asList_approximates {e : Expr} {step step' : Eval Value}
    (h : Approximates step step') : Approximates (asList e step) (asList e step') :=
  h.bind fun _ => .refl _

theorem argument_approximates {e : Expr} {step step' : Eval Value}
    (h : Approximates step step') : Approximates (argument e step) (argument e step') := by
  cases e with
  | identifier span name =>
    refine .bind (.refl _) fun symbol => ?_
    split
    · exact .refl _
    · exact h
  | boolean | number | text | call | unary | binary | conditional | list => exact h

mutual

theorem evaluate_approximates (h : ApproximatesCalls call further) : ∀ e : Expr,
    Approximates (evaluate mode call e) (evaluate mode further e)
  | .boolean _ _ | .number _ _ | .text _ _ | .identifier _ _ => .refl _
  | .call _ callee arguments => by
    refine .bind (.refl _) fun d => ?_
    exact .bind (evaluateArguments_approximates h arguments) fun values => h callee _ d values
  | .unary _ .not operand =>
    .bind (asBoolean_approximates (evaluate_approximates h operand)) fun _ => .refl _
  | .unary _ .negate operand =>
    .bind (asReal_approximates (evaluate_approximates h operand)) fun _ => .refl _
  | .binary _ op left right => by
    have hleft := evaluate_approximates h left
    have hright := evaluate_approximates h right
    cases op with
    | and | or =>
      refine .bind (asBoolean_approximates hleft) fun _ => ?_
      exact .bind (asBoolean_approximates hright) fun _ => .refl _
    | equals =>
      refine .bind hleft fun _ => ?_
      exact .bind hright fun _ => .refl _
    | concat =>
      refine .bind (asList_approximates hleft) fun _ => ?_
      exact .bind (asList_approximates hright) fun _ => .refl _
    | compare | arithmetic =>
      refine .bind (asReal_approximates hleft) fun _ => ?_
      exact .bind (asReal_approximates hright) fun _ => .refl _
  | .conditional _ condition whenTrue whenFalse => by
    refine .bind (asBoolean_approximates (evaluate_approximates h condition)) fun b => ?_
    split
    · exact evaluate_approximates h whenTrue
    · exact evaluate_approximates h whenFalse
  | .list _ elements => .bind (evaluateElements_approximates h elements) fun _ => .refl _

theorem evaluateArguments_approximates (h : ApproximatesCalls call further) : ∀ es : List Expr,
    Approximates (evaluateArguments mode call es) (evaluateArguments mode further es)
  | [] => .refl _
  | e :: rest => by
    refine .bind (argument_approximates (evaluate_approximates h e)) fun _ => ?_
    exact .bind (evaluateArguments_approximates h rest) fun _ => .refl _

theorem evaluateElements_approximates (h : ApproximatesCalls call further) : ∀ es : List Expr,
    Approximates (evaluateElements mode call es) (evaluateElements mode further es)
  | [] => .refl _
  | e :: rest => by
    refine .bind (evaluate_approximates h e) fun _ => ?_
    exact .bind (evaluateElements_approximates h rest) fun _ => .refl _

end

theorem evaluateBranches_approximates (h : ApproximatesCalls call further) (otherwise : Expr)
    (branches : List Branch) : Approximates (evaluateBranches mode call otherwise branches)
      (evaluateBranches mode further otherwise branches) := by
  induction branches with
  | nil => exact evaluate_approximates h otherwise
  | cons branch rest ih =>
    refine .bind (asBoolean_approximates (evaluate_approximates h branch.guard)) fun b => ?_
    split
    · exact evaluate_approximates h branch.action
    · exact ih

theorem evaluateBody_approximates (h : ApproximatesCalls call further) (body : Body) :
    Approximates (evaluateBody mode call body) (evaluateBody mode further body) := by
  cases body with
  | inline value => exact evaluate_approximates h value
  | piecewise span branches otherwise => exact evaluateBranches_approximates h otherwise branches

end Expressions

theorem callWith_approximates {run further : Body → Eval Value}
    (h : ∀ body, Approximates (run body) (further body)) :
    ApproximatesCalls (callWith run) (callWith further) := by
  intro callee place d values
  refine .bind (.refl _) fun _ => .inFrame (.bind (.refl _) fun _ => ?_)
  split
  · exact .refl _
  · exact h d.body

/-- Both depths lose one at every call, so the lesser one runs out first. -/
theorem runBody_approximates (mode : ListEquality) : ∀ {n m : Nat}, n ≤ m → ∀ body : Body,
    Approximates (runBody mode n body) (runBody mode m body) := by
  intro n
  induction n with
  | zero =>
    intro m _ body
    exact .tooDeep _
  | succ n ih =>
    intro m hle body
    cases m with
    | zero => omega
    | succ m =>
      have hless : n ≤ m := by omega
      exact evaluateBody_approximates (callWith_approximates (ih hless)) body

theorem runExpr_eq_of_le {mode : ListEquality} {n m : Nat} (hle : n ≤ m) {e : Expr} {s : State}
    (hends : ∀ t, runExpr mode n e s ≠ .error .tooDeep t) :
    runExpr mode m e s = runExpr mode n e s := by
  have happroximates : Approximates (runExpr mode n e) (runExpr mode m e) :=
    evaluate_approximates (callWith_approximates (runBody_approximates mode hle)) e
  exact happroximates.eq_of_ends hends

/-- A run that ends within some depth ends in the same way within every greater one. -/
theorem runEntry_eq_of_le {mode : ListEquality} {n m : Nat} (hle : n ≤ m) {d : Declaration}
    {s : State} (hends : ∀ t, runEntry mode n d s ≠ .error .tooDeep t) :
    runEntry mode m d s = runEntry mode n d s := by
  have happroximates : Approximates (runEntry mode n d) (runEntry mode m d) :=
    .inFrame (.bind (.refl _) fun _ => runBody_approximates mode hle d.body)
  exact happroximates.eq_of_ends hends

/-- Runs that end have one outcome, whatever their depths. -/
theorem runEntry_unique {mode : ListEquality} {n m : Nat} {d : Declaration} {s : State}
    (hn : ∀ t, runEntry mode n d s ≠ .error .tooDeep t)
    (hm : ∀ t, runEntry mode m d s ≠ .error .tooDeep t) :
    runEntry mode n d s = runEntry mode m d s := by
  rcases Nat.le_total n m with hle | hle
  · exact (runEntry_eq_of_le hle hn).symm
  · exact runEntry_eq_of_le hle hm

end Evaluation

end Piecewise
