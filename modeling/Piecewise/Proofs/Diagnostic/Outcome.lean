import Piecewise.Diagnostic.Basic

/-!
# What a step comes to

Reading, checking and evaluating are sequences of steps that change a state and may fail. What is
said of a step covers both ends: its result with the state it leaves, and the failure it raises. A
sequence raises only what its steps raise.
-/

namespace Piecewise

/-- A diagnostic that points at a place of the given sort. -/
def Diagnostic.PointsAt (S : Position → Prop) (d : Diagnostic) : Prop :=
  ∃ p, d.position = some p ∧ S p

section Outcomes

variable {ε ε' α β : Type} {E : ε → Prop} {outcome : Except ε α} {Q : α → Prop} {R : β → Prop}

/-- An outcome is a result that is as asked for, or a failure of the given sort. -/
def Gives (E : ε → Prop) (outcome : Except ε α) (Q : α → Prop) : Prop :=
  match outcome with
  | .ok a => Q a
  | .error e => E e

namespace Gives

theorem bind {next : α → Except ε β} (h : Gives E outcome Q)
    (k : ∀ a, Q a → Gives E (next a) R) : Gives E (outcome >>= next) R := by
  cases outcome with
  | ok a => exact k a h
  | error e => exact h

theorem map {f : α → β} (h : Gives E outcome Q) (k : ∀ a, Q a → R (f a)) :
    Gives E (outcome.map f) R := by
  cases outcome with
  | ok a => exact k a h
  | error e => exact h

theorem relax {F : ε → Prop} (h : Gives E outcome Q) (k : ∀ e, E e → F e) : Gives F outcome Q := by
  cases outcome with
  | ok a => exact h
  | error e => exact k e h

theorem mapError {F : ε' → Prop} {f : ε → ε'} (h : Gives (fun e => F (f e)) outcome Q) :
    Gives F (outcome.mapError f) Q := by
  cases outcome with
  | ok a => exact h
  | error e => exact h

theorem of_ok {a : α} (h : Gives E outcome Q) (ha : outcome = .ok a) : Q a := by
  subst ha
  exact h

theorem of_error {e : ε} (h : Gives E outcome Q) (he : outcome = .error e) : E e := by
  subst he
  exact h

end Gives

end Outcomes

variable {ε σ α β : Type} {E : ε → Prop} {step : EStateM ε σ α} {s : σ} {Q : α → σ → Prop}

/-- From a state, a step has a result and leaves a state that are as asked for, or it raises a
failure of the given sort. -/
def Yields (E : ε → Prop) (step : EStateM ε σ α) (s : σ) (Q : α → σ → Prop) : Prop :=
  match step s with
  | .ok a t => Q a t
  | .error e _ => E e

namespace Yields

theorem pure {a : α} (h : Q a s) : Yields E (Pure.pure a) s Q := h

theorem bind {next : α → EStateM ε σ β} {R : β → σ → Prop} (h : Yields E step s Q)
    (k : ∀ a t, Q a t → Yields E (next a) t R) : Yields E (step >>= next) s R := by
  change Yields E (EStateM.bind step next) s R
  unfold Yields EStateM.bind at *
  cases hstep : step s with
  | error e t => rwa [hstep] at h
  | ok a t =>
    rw [hstep] at h
    exact k a t h

theorem weaken {R : α → σ → Prop} (h : Yields E step s Q) (k : ∀ a t, Q a t → R a t) :
    Yields E step s R := by
  unfold Yields at *
  cases hstep : step s with
  | error e t => rwa [hstep] at h
  | ok a t =>
    rw [hstep] at h
    exact k a t h

theorem of_ok {a : α} {t : σ} (h : Yields E step s Q) (hstep : step s = .ok a t) : Q a t := by
  rwa [Yields, hstep] at h

theorem of_error {e : ε} {t : σ} (h : Yields E step s Q) (hstep : step s = .error e t) : E e := by
  rwa [Yields, hstep] at h

end Yields

/-- From every state with an invariant, a step leaves a state with the invariant and has a result
that is as asked for, or it raises a failure of the given sort. -/
def Upholds (I : σ → Prop) (E : ε → Prop) (step : EStateM ε σ α) (Q : α → Prop) : Prop :=
  ∀ s, I s → Yields E step s fun a t => I t ∧ Q a

namespace Upholds

variable {I : σ → Prop} {Q : α → Prop}

theorem pure {a : α} (h : Q a) : Upholds I E (Pure.pure a) Q := fun _ hs => ⟨hs, h⟩

theorem throw {e : ε} (h : E e) : Upholds I E (MonadExcept.throw e : EStateM ε σ α) Q :=
  fun _ _ => h

theorem get : Upholds I E (MonadState.get : EStateM ε σ σ) I := fun _ hs => ⟨hs, hs⟩

theorem set {s : σ} (h : I s) :
    Upholds I E (MonadStateOf.set s : EStateM ε σ PUnit) fun _ => True :=
  fun _ _ => ⟨h, trivial⟩

theorem bind {next : α → EStateM ε σ β} {R : β → Prop} (h : Upholds I E step Q)
    (k : ∀ a, Q a → Upholds I E (next a) R) : Upholds I E (step >>= next) R :=
  fun s hs => (h s hs).bind fun a t ht => k a ht.2 t ht.1

/-- A test that fails where it does not hold. -/
theorem ensure {c : Prop} [Decidable c] {a : α} {e : ε} (h : Q a) (he : E e) :
    Upholds I E (if c then Pure.pure a else MonadExcept.throw e : EStateM ε σ α) Q := by
  split
  · exact pure h
  · exact throw he

end Upholds

end Piecewise
