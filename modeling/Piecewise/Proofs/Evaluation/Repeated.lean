import Piecewise.Proofs.Evaluation.InStep

/-!
# Runs one after the other

A run leaves its scopes as they were, however it ends, so the only trace of an earlier run is in
the counters. A later run goes in step with the run from the earlier state: it gives the same value,
but for the allocations of the lists that it makes itself, or the same fault, and calls the same
names.
-/

namespace Piecewise

namespace Evaluation

variable {α : Type}

/-- No list that is bound to a name has an allocation that is still to be given. -/
def State.Fresh (s : State) : Prop := ∀ i ∈ s.scopes.allocations, i < s.allocated

instance (s : State) : Decidable s.Fresh :=
  inferInstanceAs (Decidable (∀ i ∈ s.scopes.allocations, i < s.allocated))

/-- Whatever is bound to names, all numbers from some on are still to be given. -/
theorem State.exists_fresh (scopes : Scopes) (calls : List String) :
    ∃ n, State.Fresh ⟨scopes, calls, n⟩ := by
  show ∃ n, ∀ i ∈ scopes.allocations, i < n
  induction scopes.allocations with
  | nil => exact ⟨0, nofun⟩
  | cons i rest ih =>
    obtain ⟨n, hn⟩ := ih
    refine ⟨max (i + 1) n, List.forall_mem_cons.mpr ⟨by omega, fun j hj => ?_⟩⟩
    have hjn := hn j hj
    omega

/-- The run of a program begins before any list. -/
theorem State.fresh_initial (p : Program) : (State.initial ⟨p.signatures, []⟩).Fresh := by
  intro i hi
  obtain ⟨scope, hscope, hi⟩ := List.mem_flatMap.mp hi
  obtain ⟨symbol, hsymbol, hi⟩ := List.mem_flatMap.mp hi
  cases List.mem_singleton.mp hscope
  obtain ⟨d, _, rfl⟩ := List.mem_map.mp hsymbol
  cases hi

/-- Values that are the same but for the allocations of lists. Allocations below a bound are the
same in both, and the others are exchanged one for one. -/
def SameButNew (bound : Nat) (vs ws : List Value) : Prop :=
  ∃ same : Nat → Nat → Prop, Relator.BiUnique same ∧ (∀ i < bound, same i i) ∧
    List.Forall₂ (Value.Paired same Eq) vs ws

/-- The state in which a run ends, with a value or without. -/
def endState : EStateM.Result Halt State α → State
  | .ok _ t => t
  | .error _ t => t

/-- A step that is taken twice in a row and does the same both times. -/
inductive SameAgain (step : Eval Value) (s : State) : Prop
  | value {v w : Value} {t u : State} {names : List String} (first : step s = .ok v t)
      (again : step t = .ok w u) (values : SameButNew s.allocated [v] [w])
      (calls : t.calls = names ++ s.calls) (calls_again : u.calls = names ++ t.calls)
  | halt {halt : Halt} {t u : State} {names : List String} (first : step s = .error halt t)
      (again : step t = .error halt u) (calls : t.calls = names ++ s.calls)
      (calls_again : u.calls = names ++ t.calls)

/-- A step that goes in step with itself under every pairing. -/
def Steady (Q : Pairing → Nat → α → α → Prop) (step : Eval α) : Prop :=
  ∀ M n, InStep M n (Q M) step step

theorem steady_runExpr (mode : ListEquality) (depth : Nat) (e : Expr) :
    Steady Pairing.Values (runExpr mode depth e) :=
  fun M n => runExpr_inStep M mode depth e n

theorem steady_runBody (mode : ListEquality) (depth : Nat) (body : Body) :
    Steady Pairing.Values (runBody mode depth body) :=
  fun M n => runBody_inStep M mode depth body n

theorem steady_runEntry (mode : ListEquality) (depth : Nat) (d : Declaration) :
    Steady Pairing.Values (runEntry mode depth d) :=
  fun M n => runEntry_inStep M mode depth d n

theorem PairedEnds.advance {Q : Nat → α → α → Prop} {s t : State}
    {outcome outcome' : EStateM.Result Halt State α} (h : PairedEnds Q s t outcome outcome') :
    Advance s t (endState outcome) (endState outcome') := by
  cases h with
  | ok advance _ => exact advance
  | error advance => exact advance

namespace Steady

variable {Q : Pairing → Nat → α → α → Prop} {step : Eval α} {s t : State}

/-- A run goes in step with itself from one and the same state. -/
theorem advance (h : Steady Q step) (s : State) :
    Advance s s (endState (step s)) (endState (step s)) := by
  let M : Pairing := .inPlace Eq fun {d _} hde => hde ▸ .refl d
  have hscopes : Scopes.Paired (M.lists s.allocated) M.functions s.scopes s.scopes :=
    Scopes.paired_self (fun _ => rfl) fun _ _ => rfl
  exact (h M s.allocated s s ⟨rfl, rfl, hscopes⟩).advance

theorem leaves_scopes (h : Steady Q step) (s : State) : (endState (step s)).scopes = s.scopes :=
  (h.advance s).scopes

/-- A run leaves allocations to be given that no list has. -/
theorem fresh (h : Steady Q step) (hs : s.Fresh) : (endState (step s)).Fresh := by
  intro i hi
  rw [h.leaves_scopes] at hi
  exact Nat.lt_of_lt_of_le (hs i hi) (h.advance s).le

/-- A step with a value leaves scopes and time for the next. -/
theorem of_ok {a : α} (h : Steady Q step) (hs : s.Fresh) (hstep : step s = .ok a t) :
    Advance s s t t ∧ t.Fresh := by
  have hadvance := h.advance s
  have hfresh := h.fresh hs
  rw [hstep] at hadvance hfresh
  exact ⟨hadvance, hfresh⟩

/-- A run from the same scopes at a later time. -/
theorem rerun (h : Steady Q step) (hs : s.Fresh) (hscopes : t.scopes = s.scopes)
    (hle : s.allocated ≤ t.allocated) :
    PairedEnds (Q (.later s.allocated (t.allocated - s.allocated))) s t (step s) (step t) := by
  refine h _ s.allocated s t ⟨rfl, ⟨Nat.le_refl _, by omega⟩, ?_⟩
  rw [hscopes]
  exact Scopes.paired_self (fun _ => rfl) fun i hi => ⟨hs i hi, (if_pos (hs i hi)).symm⟩

end Steady

theorem sameButNew_of_later {base gap n : Nat} (hle : base ≤ n) {vs ws : List Value}
    (h : (Pairing.later base gap).ValueLists n vs ws) : SameButNew base vs ws :=
  ⟨_, (Pairing.later base gap).lists_unique n,
    fun _ hi => ⟨Nat.lt_of_lt_of_le hi hle, (if_pos hi).symm⟩, h⟩

theorem Steady.sameAgain {step : Eval Value} {s : State} (h : Steady Pairing.Values step)
    (hs : s.Fresh) : SameAgain step s := by
  have hadvance := h.advance s
  have hagain := h.rerun hs hadvance.scopes hadvance.le
  generalize hfirst : step s = outcome at hagain
  generalize hsecond : step (endState outcome) = outcome' at hagain
  cases hagain with
  | ok advance hvalue =>
    obtain ⟨names, hcalls, hcalls'⟩ := advance.calls
    have hvalues := sameButNew_of_later advance.le (.cons hvalue .nil)
    exact .value hfirst hsecond hvalues hcalls hcalls'
  | error advance =>
    obtain ⟨names, hcalls, hcalls'⟩ := advance.calls
    exact .halt hfirst hsecond hcalls hcalls'

/-- Runs of expressions, of bodies and of functions leave every scope as it was, whether they end
with a value or without. A second run right after the first does the same again. -/
theorem scopes_unchanged_and_same_again (mode : ListEquality) (depth : Nat) (s : State) :
    (∀ e, (endState (runExpr mode depth e s)).scopes = s.scopes ∧
        (s.Fresh → SameAgain (runExpr mode depth e) s)) ∧
      (∀ body, (endState (runBody mode depth body s)).scopes = s.scopes ∧
        (s.Fresh → SameAgain (runBody mode depth body) s)) ∧
      ∀ d, (endState (runEntry mode depth d s)).scopes = s.scopes ∧
        (s.Fresh → SameAgain (runEntry mode depth d) s) := by
  refine ⟨fun e => ?_, fun body => ?_, fun d => ?_⟩
  · have hsteady := steady_runExpr mode depth e
    exact ⟨hsteady.leaves_scopes s, hsteady.sameAgain⟩
  · have hsteady := steady_runBody mode depth body
    exact ⟨hsteady.leaves_scopes s, hsteady.sameAgain⟩
  · have hsteady := steady_runEntry mode depth d
    exact ⟨hsteady.leaves_scopes s, hsteady.sameAgain⟩

/-- A frame in which a list that was made before is bound to `xs`. -/
def boundList : State where
  scopes := ⟨.empty, [⟨[{ Symbol.parameter "xs" (.list .boolean) with
    value := some (.list 0 [.boolean true]) }]⟩]⟩
  calls := []
  allocated := 1

/-- `[xs, [true]]`. -/
def oldAndNew : Expr :=
  .list default [.identifier default "xs", .list default [.boolean default true]]

/-- The old list is the same list in both values, where each value has a new list of its own. -/
theorem scopes_unchanged_and_same_again_oldAndNew :
    boundList.Fresh ∧
      runExpr .structural 0 oldAndNew boundList =
        .ok (.list 2 [.list 0 [.boolean true], .list 1 [.boolean true]])
          { boundList with allocated := 3 } ∧
      runExpr .structural 0 oldAndNew { boundList with allocated := 3 } =
        .ok (.list 4 [.list 0 [.boolean true], .list 3 [.boolean true]])
          { boundList with allocated := 5 } ∧
      SameAgain (runExpr .structural 0 oldAndNew) boundList := by
  have hfresh : boundList.Fresh := by decide
  have hexpressions := (scopes_unchanged_and_same_again .structural 0 boundList).1
  exact ⟨hfresh, rfl, rfl, (hexpressions oldAndNew).2 hfresh⟩

end Evaluation

end Piecewise
