import Piecewise.Evaluation.Program

/-!
# Contracts on steps of a run

A contract says of a step that is run in given scopes which faults it may end in and what its
value is like. It is stated of two steps at once that do the same: in this way one argument both
describes a run and shows what makes no difference to it. Steps leave the scopes as they were, so
contracts of one step after the other need no more than that the second holds of every value that
the first may have.
-/

namespace Piecewise.Evaluation

variable {α β : Type}

/-- Two steps that do the same in the given scopes, end in no fault but those allowed, and where
they have a value leave the scopes as they were and have a value as described. -/
def Meets (scopes : Scopes) (allows : Fault → Prop) (step twin : Eval α) (Q : α → Prop) : Prop :=
  ∀ s, s.scopes = scopes → twin s = step s ∧
    (∀ a t, step s = .ok a t → t.scopes = scopes ∧ Q a) ∧
    ∀ d t, step s = .error (.fault d) t → allows d.fault

namespace Meets

variable {scopes : Scopes} {allows : Fault → Prop} {Q : α → Prop} {R : β → Prop}

theorem pure {a : α} (h : Q a) : Meets scopes allows (Pure.pure a) (Pure.pure a) Q := by
  intro s hs
  refine ⟨rfl, fun b t hstep => ?_, fun d t hstep => ?_⟩
  · cases hstep
    exact ⟨hs, h⟩
  · cases hstep

theorem bind {step twin : Eval α} {next next' : α → Eval β} (h : Meets scopes allows step twin Q)
    (k : ∀ a, Q a → Meets scopes allows (next a) (next' a) R) :
    Meets scopes allows (step >>= next) (twin >>= next') R := by
  intro s hs
  obtain ⟨hsame, hvalue, hfault⟩ := h s hs
  change EStateM.bind twin next' s = EStateM.bind step next s ∧
    (∀ b t, EStateM.bind step next s = .ok b t → t.scopes = scopes ∧ R b) ∧
    ∀ d t, EStateM.bind step next s = .error (.fault d) t → allows d.fault
  unfold EStateM.bind
  rw [hsame]
  cases hstep : step s with
  | ok a u =>
    obtain ⟨hu, ha⟩ := hvalue a u hstep
    exact k a ha u hu
  | error halt u =>
    refine ⟨rfl, fun b t hfail => ?_, fun d t hfail => ?_⟩
    · cases hfail
    · cases hfail
      exact hfault d u hstep

theorem weaken {step twin : Eval α} {Q' : α → Prop} (h : Meets scopes allows step twin Q)
    (k : ∀ a, Q a → Q' a) : Meets scopes allows step twin Q' := by
  intro s hs
  obtain ⟨hsame, hvalue, hfault⟩ := h s hs
  refine ⟨hsame, fun a t hstep => ?_, hfault⟩
  obtain ⟨ht, ha⟩ := hvalue a t hstep
  exact ⟨ht, k a ha⟩

theorem fail {fault : Fault} {place : Position} (h : allows fault) :
    Meets scopes allows (Evaluation.fail fault place) (Evaluation.fail fault place) Q := by
  intro s _
  refine ⟨rfl, fun a t hstep => ?_, fun d t hstep => ?_⟩
  · cases hstep
  · cases hstep
    exact h

theorem tooDeep : Meets scopes allows (throw .tooDeep) (throw .tooDeep) Q := by
  intro s _
  refine ⟨rfl, fun a t hstep => ?_, fun d t hstep => ?_⟩
  · cases hstep
  · cases hstep

theorem lift {outcome : Except Diagnostic α} (hvalue : ∀ a, outcome = .ok a → Q a)
    (hfault : ∀ d, outcome = .error d → allows d.fault) :
    Meets scopes allows (Evaluation.lift outcome) (Evaluation.lift outcome) Q := by
  cases outcome with
  | ok a => exact pure (hvalue a rfl)
  | error d =>
    intro s _
    refine ⟨rfl, fun a t hstep => ?_, fun e t hstep => ?_⟩
    · cases hstep
    · cases hstep
      exact hfault d rfl

theorem resolve {name : String} {place : Position} {symbol : Symbol}
    (h : scopes.resolve? name = some symbol) :
    Meets scopes allows (Evaluation.resolve name place) (Evaluation.resolve name place)
      (· = symbol) := by
  intro s hs
  have hstep : Evaluation.resolve name place s = .ok symbol s := by
    change Evaluation.lift (s.scopes.resolve name place) s = _
    rw [hs, Scopes.resolve, h]
    rfl
  refine ⟨rfl, fun a t heq => ?_, fun d t heq => ?_⟩
  · rw [hstep] at heq
    cases heq
    exact ⟨hs, rfl⟩
  · rw [hstep] at heq
    cases heq

theorem newList {elements : List Value} {Q : Value → Prop} (h : ∀ i, Q (.list i elements)) :
    Meets scopes allows (Evaluation.newList elements) (Evaluation.newList elements) Q := by
  intro s hs
  refine ⟨rfl, fun v t hstep => ?_, fun d t hstep => ?_⟩
  · cases hstep
    exact ⟨hs, h s.allocated⟩
  · cases hstep

theorem countCall {callee : String} :
    Meets scopes allows (modify fun s => { s with calls := callee :: s.calls })
      (modify fun s => { s with calls := callee :: s.calls }) fun _ => True := by
  intro s hs
  refine ⟨rfl, fun a t hstep => ?_, fun d t hstep => ?_⟩
  · cases hstep
    exact ⟨hs, trivial⟩
  · cases hstep

theorem applyBuiltin {b : Builtin} {values : List Value} {place : Position} {Q : Value → Prop}
    (hvalue : ∀ fresh v, b.apply fresh values place = .ok v → Q v)
    (hfault : ∀ fresh d, b.apply fresh values place = .error d → allows d.fault) :
    Meets scopes allows (Evaluation.applyBuiltin b values place)
      (Evaluation.applyBuiltin b values place) Q := by
  intro s hs
  have hstep : Evaluation.applyBuiltin b values place s =
      EStateM.bind (Evaluation.lift (b.apply s.allocated values place))
        (fun v _ => .ok v { s with allocated := s.allocated + 1 }) s := rfl
  rw [hstep]
  cases happly : b.apply s.allocated values place with
  | ok v =>
    refine ⟨rfl, fun w t heq => ?_, fun d t heq => ?_⟩
    · cases heq
      exact ⟨hs, hvalue _ v happly⟩
    · cases heq
  | error fault =>
    refine ⟨rfl, fun w t heq => ?_, fun d t heq => ?_⟩
    · cases heq
    · cases heq
      exact hfault _ fault happly

end Meets

theorem bind_ok {step : Eval α} {next : α → Eval β} {s t : State} {a : α}
    (h : step s = .ok a t) : (step >>= next) s = next a t := by
  change EStateM.bind step next s = next a t
  unfold EStateM.bind
  rw [h]

theorem bind_error {step : Eval α} {next : α → Eval β} {s t : State} {halt : Halt}
    (h : step s = .error halt t) : (step >>= next) s = .error halt t := by
  change EStateM.bind step next s = .error halt t
  unfold EStateM.bind
  rw [h]

theorem inFrame_ok {step : Eval α} {s t : State} {a : α}
    (h : step { s with scopes := ⟨s.scopes.global, [.empty]⟩ } = .ok a t) :
    inFrame step s = .ok a { t with scopes := ⟨t.scopes.global, s.scopes.locals⟩ } := by
  unfold inFrame Scopes.enterFrame
  dsimp only
  rw [h]
  rfl

theorem inFrame_error {step : Eval α} {s t : State} {halt : Halt}
    (h : step { s with scopes := ⟨s.scopes.global, [.empty]⟩ } = .error halt t) :
    inFrame step s = .error halt { t with scopes := ⟨t.scopes.global, s.scopes.locals⟩ } := by
  unfold inFrame Scopes.enterFrame
  dsimp only
  rw [h]
  rfl

/-- A step in a frame of its own, once it is known what the frame holds when the rest begins. -/
theorem Meets.inFrame {global : Scope} {locals inner : List Scope} {allows : Fault → Prop}
    {Q : α → Prop} {step twin rest rest' : Eval α}
    (hstep : ∀ s, s.scopes = ⟨global, [.empty]⟩ →
      step s = rest { s with scopes := ⟨global, inner⟩ })
    (htwin : ∀ s, s.scopes = ⟨global, [.empty]⟩ →
      twin s = rest' { s with scopes := ⟨global, inner⟩ })
    (h : Meets ⟨global, inner⟩ allows rest rest' Q) :
    Meets ⟨global, locals⟩ allows (inFrame step) (inFrame twin) Q := by
  intro s hs
  obtain ⟨hsame, hvalue, hfault⟩ := h { s with scopes := ⟨global, inner⟩ } rfl
  have henter : step { s with scopes := ⟨s.scopes.global, [.empty]⟩ } =
      rest { s with scopes := ⟨global, inner⟩ } := hstep _ (by rw [hs])
  have henter' : twin { s with scopes := ⟨s.scopes.global, [.empty]⟩ } =
      rest { s with scopes := ⟨global, inner⟩ } := (htwin _ (by rw [hs])).trans hsame
  cases hrest : rest { s with scopes := ⟨global, inner⟩ } with
  | ok a u =>
    rw [inFrame_ok (henter.trans hrest), inFrame_ok (henter'.trans hrest)]
    obtain ⟨hu, ha⟩ := hvalue a u hrest
    refine ⟨rfl, fun b t heq => ?_, fun d t heq => ?_⟩
    · cases heq
      exact ⟨by rw [hu, hs], ha⟩
    · cases heq
  | error halt u =>
    rw [inFrame_error (henter.trans hrest), inFrame_error (henter'.trans hrest)]
    refine ⟨rfl, fun b t heq => ?_, fun d t heq => ?_⟩
    · cases heq
    · cases heq
      exact hfault d u hrest

end Piecewise.Evaluation
