import Piecewise.Proofs.Evaluation.Depth
import Piecewise.Proofs.Evaluation.Repeated

/-!
# Conjunction and disjunction

Both operands of `and` and `or` are always run, the second where the first has left off. That is no
other place for it than where the connective began: the scopes are the same, and a boolean does not
depend on the counters. So the operands may be exchanged, and there is a value only where both
operands are booleans.
-/

namespace Piecewise

namespace Evaluation

/-- The value of an expression and how often its run calls each name, at every depth that
suffices. -/
def HasValue (mode : ListEquality) (s : State) (e : Expr) (v : Value) (calls : String → Nat) :
    Prop :=
  ∃ depth t, runExpr mode depth e s = .ok v t ∧
    ∀ name, t.callCount name = s.callCount name + calls name

def Fails (mode : ListEquality) (s : State) (e : Expr) : Prop :=
  ∃ depth d t, runExpr mode depth e s = .error (.fault d) t

def Ends (mode : ListEquality) (s : State) (e : Expr) : Prop :=
  (∃ v calls, HasValue mode s e v calls) ∨ Fails mode s e

def EndsWithoutBoolean (mode : ListEquality) (s : State) (e : Expr) : Prop :=
  (∃ v calls, HasValue mode s e v calls ∧ ∀ x, v ≠ .boolean x) ∨ Fails mode s e

/-- Of two things that hold from some depth on, there is a depth at which both hold. -/
theorem exists_common {P Q : Nat → Prop} (h : ∃ n, ∀ m, n ≤ m → P m)
    (k : ∃ n, ∀ m, n ≤ m → Q m) : ∃ n, P n ∧ Q n := by
  obtain ⟨n, hn⟩ := h
  obtain ⟨m, hm⟩ := k
  exact ⟨max n m, hn _ (Nat.le_max_left n m), hm _ (Nat.le_max_right n m)⟩

section Operands

variable {mode : ListEquality} {s t u : State} {n : Nat} {a b e : Expr} {x y : Bool} {v : Value}

def truth (mode : ListEquality) (depth : Nat) (e : Expr) : Eval Bool :=
  asBoolean e (runExpr mode depth e)

theorem steady_truth (mode : ListEquality) (depth : Nat) (e : Expr) :
    Steady (fun _ _ => Eq) (truth mode depth e) :=
  fun M n => asBoolean_inStep (runExpr_inStep M mode depth e n)

theorem truth_of_boolean (h : runExpr mode n e s = .ok (.boolean x) t) :
    truth mode n e s = .ok x t := bind_ok h

theorem truth_of_other (h : runExpr mode n e s = .ok v t) (hv : ∀ x, v ≠ .boolean x) :
    ∃ d, truth mode n e s = .error (.fault d) t := by
  cases v with
  | boolean x => exact absurd rfl (hv x)
  | real | text | list | function | type => exact ⟨_, bind_ok h⟩

theorem truth_of_fault {d : Diagnostic} (h : runExpr mode n e s = .error (.fault d) t) :
    truth mode n e s = .error (.fault d) t := bind_error h

theorem HasValue.eventually {calls : String → Nat} (h : HasValue mode s e v calls) :
    ∃ n, ∀ m, n ≤ m → ∃ t, runExpr mode m e s = .ok v t ∧
      ∀ name, t.callCount name = s.callCount name + calls name := by
  obtain ⟨n, t, hrun, hcalls⟩ := h
  have hends : ∀ u, runExpr mode n e s ≠ .error .tooDeep u := by
    rw [hrun]
    exact nofun
  exact ⟨n, fun m hle => ⟨t, (runExpr_eq_of_le hle hends).trans hrun, hcalls⟩⟩

theorem Fails.eventually (h : Fails mode s e) :
    ∃ n, ∀ m, n ≤ m → ∃ d t, runExpr mode m e s = .error (.fault d) t := by
  obtain ⟨n, d, t, hrun⟩ := h
  have hends : ∀ u, runExpr mode n e s ≠ .error .tooDeep u := by
    rw [hrun]
    exact nofun
  exact ⟨n, fun m hle => ⟨d, t, (runExpr_eq_of_le hle hends).trans hrun⟩⟩

theorem EndsWithoutBoolean.eventually (h : EndsWithoutBoolean mode s e) :
    ∃ n, ∀ m, n ≤ m → ∃ d t, truth mode m e s = .error (.fault d) t := by
  rcases h with ⟨v, calls, hvalue, hv⟩ | hfails
  · obtain ⟨n, hn⟩ := hvalue.eventually
    refine ⟨n, fun m hle => ?_⟩
    obtain ⟨t, hrun, _⟩ := hn m hle
    obtain ⟨d, htruth⟩ := truth_of_other hrun hv
    exact ⟨d, t, htruth⟩
  · obtain ⟨n, hn⟩ := hfails.eventually
    refine ⟨n, fun m hle => ?_⟩
    obtain ⟨d, t, hrun⟩ := hn m hle
    exact ⟨d, t, truth_of_fault hrun⟩

theorem Ends.cases (h : Ends mode s e) :
    (∃ x calls, HasValue mode s e (.boolean x) calls) ∨ EndsWithoutBoolean mode s e := by
  rcases h with ⟨v, calls, hvalue⟩ | hfails
  · cases v with
    | boolean x => exact Or.inl ⟨x, calls, hvalue⟩
    | real | text | list | function | type => exact Or.inr (Or.inl ⟨_, calls, hvalue, nofun⟩)
  · exact Or.inr (Or.inr hfails)

/-! ## Both operands -/

def both (f : Bool → Bool → Bool) (mode : ListEquality) (depth : Nat) (a b : Expr) :
    Eval Value := do
  let x ← truth mode depth a
  let y ← truth mode depth b
  return .boolean (f x y)

theorem runExpr_and (mode : ListEquality) (depth : Nat) (span : Span) (a b : Expr) :
    runExpr mode depth (.binary span .and a b) = both (· && ·) mode depth a b := rfl

theorem runExpr_or (mode : ListEquality) (depth : Nat) (span : Span) (a b : Expr) :
    runExpr mode depth (.binary span .or a b) = both (· || ·) mode depth a b := rfl

variable (f : Bool → Bool → Bool)

/-- An operand ends where the other has left off as it ends on its own. -/
theorem truth_after (hs : s.Fresh) (ha : truth mode n a s = .ok x t) :
    PairedEnds (fun _ => Eq) s t (truth mode n b s) (truth mode n b t) := by
  have hadvance := ((steady_truth mode n a).of_ok hs ha).1
  exact (steady_truth mode n b).rerun hs hadvance.scopes hadvance.le

/-- The second operand adds to the calls of the first what it adds on its own. -/
theorem both_value (hs : s.Fresh) (ha : truth mode n a s = .ok x t)
    (hb : truth mode n b s = .ok y u) :
    ∃ w, both f mode n a b s = .ok (.boolean (f x y)) w ∧
      ∀ name, w.callCount name + s.callCount name = t.callCount name + u.callCount name := by
  have hafter := truth_after (b := b) hs ha
  rw [hb] at hafter
  generalize hb' : truth mode n b t = outcome at hafter
  cases hafter with
  | @ok _ _ _ w advance hvalue =>
    cases hvalue
    refine ⟨w, (bind_ok ha).trans (bind_ok hb'), fun name => ?_⟩
    obtain ⟨names, hcalls, hcalls'⟩ := advance.calls
    unfold State.callCount
    rw [hcalls, hcalls', List.count_append, List.count_append]
    omega

theorem both_error_left {halt : Halt} (ha : truth mode n a s = .error halt t) :
    both f mode n a b s = .error halt t := bind_error ha

theorem both_error_right {halt : Halt} (hs : s.Fresh) (ha : truth mode n a s = .ok x t)
    (hb : truth mode n b s = .error halt u) : ∃ w, both f mode n a b s = .error halt w := by
  have hafter := truth_after (b := b) hs ha
  rw [hb] at hafter
  generalize hb' : truth mode n b t = outcome at hafter
  cases hafter with
  | @error _ _ w _ => exact ⟨w, (bind_ok ha).trans (bind_error hb')⟩

/-! ## Expressions that are both operands together -/

/-- Two operands with booleans, each on its own, have one together. -/
theorem hasValue_both (he : ∀ depth, runExpr mode depth e = both f mode depth a b) (hs : s.Fresh)
    {ca cb : String → Nat} (ha : HasValue mode s a (.boolean x) ca)
    (hb : HasValue mode s b (.boolean y) cb) :
    HasValue mode s e (.boolean (f x y)) fun name => ca name + cb name := by
  obtain ⟨n, ⟨t, ht, htcalls⟩, u, hu, hucalls⟩ := exists_common ha.eventually hb.eventually
  obtain ⟨w, hw, hwcalls⟩ := both_value f hs (truth_of_boolean ht) (truth_of_boolean hu)
  refine ⟨n, w, (congrFun (he n) s).trans hw, fun name => ?_⟩
  have hsum := hwcalls name
  rw [htcalls, hucalls] at hsum
  show w.callCount name = s.callCount name + (ca name + cb name)
  omega

theorem fails_both_left (he : ∀ depth, runExpr mode depth e = both f mode depth a b)
    (ha : EndsWithoutBoolean mode s a) : Fails mode s e := by
  obtain ⟨n, hn⟩ := ha.eventually
  obtain ⟨d, t, ht⟩ := hn n (Nat.le_refl n)
  exact ⟨n, d, t, (congrFun (he n) s).trans (both_error_left f ht)⟩

/-- Where the second operand gives no boolean, the first need not give one: it only has to end. -/
theorem fails_both_right (he : ∀ depth, runExpr mode depth e = both f mode depth a b)
    (hs : s.Fresh) (ha : Ends mode s a) (hb : EndsWithoutBoolean mode s b) : Fails mode s e := by
  rcases ha.cases with ⟨x, calls, hvalue⟩ | hwithout
  · obtain ⟨n, ⟨t, ht, _⟩, d, u, hu⟩ := exists_common hvalue.eventually hb.eventually
    obtain ⟨w, hw⟩ := both_error_right f hs (truth_of_boolean ht) hu
    exact ⟨n, d, w, (congrFun (he n) s).trans hw⟩
  · exact fails_both_left f he hwithout

end Operands

/-- `and` and `or` take the booleans of both operands, whichever comes first, and call what both
operands call. Where an operand gives no boolean, they fail, whichever it is. -/
theorem connectives_strict_commutative (mode : ListEquality) {s : State} (hs : s.Fresh)
    (a b : Expr) (span : Span) :
    (∀ x y ca cb, HasValue mode s a (.boolean x) ca → HasValue mode s b (.boolean y) cb →
        let calls name := ca name + cb name
        HasValue mode s (.binary span .and a b) (.boolean (x && y)) calls ∧
          HasValue mode s (.binary span .and b a) (.boolean (x && y)) calls ∧
          HasValue mode s (.binary span .or a b) (.boolean (x || y)) calls ∧
          HasValue mode s (.binary span .or b a) (.boolean (x || y)) calls) ∧
      (Ends mode s a → Ends mode s b →
        EndsWithoutBoolean mode s a ∨ EndsWithoutBoolean mode s b →
        Fails mode s (.binary span .and a b) ∧ Fails mode s (.binary span .and b a) ∧
          Fails mode s (.binary span .or a b) ∧ Fails mode s (.binary span .or b a)) := by
  have hand := fun a b depth => runExpr_and mode depth span a b
  have hor := fun a b depth => runExpr_or mode depth span a b
  refine ⟨fun x y ca cb ha hb => ?_, fun ha hb hwithout => ?_⟩
  · have hcalls : (fun name => ca name + cb name) = fun name => cb name + ca name :=
      funext fun name => Nat.add_comm (ca name) (cb name)
    refine ⟨hasValue_both _ (hand a b) hs ha hb, ?_, hasValue_both _ (hor a b) hs ha hb, ?_⟩
    · rw [hcalls, Bool.and_comm]
      exact hasValue_both _ (hand b a) hs hb ha
    · rw [hcalls, Bool.or_comm]
      exact hasValue_both _ (hor b a) hs hb ha
  · rcases hwithout with hleft | hright
    · exact ⟨fails_both_left _ (hand a b) hleft, fails_both_right _ (hand b a) hs hb hleft,
        fails_both_left _ (hor a b) hleft, fails_both_right _ (hor b a) hs hb hleft⟩
    · exact ⟨fails_both_right _ (hand a b) hs ha hright, fails_both_left _ (hand b a) hright,
        fails_both_right _ (hor a b) hs ha hright, fails_both_left _ (hor b a) hright⟩

/-- `flip(x: bool) -> bool = not x`. -/
def flipped : Declaration where
  number := 0
  name := "flip"
  parameters := [⟨"x", .primitive default .bool, default⟩]
  returns := .primitive default .bool
  body := .inline (.unary default .not (.identifier default "x"))
  span := default

/-- A run in which `flip` can be called. -/
def flipState : State := .initial ⟨⟨[.ofDeclaration flipped]⟩, []⟩

def flipOf (x : Bool) : Expr := .call default "flip" [.boolean default x]

theorem hasValue_flipOf (x : Bool) : HasValue .structural flipState (flipOf x) (.boolean !x)
    fun name => if name = "flip" then 1 else 0 := by
  refine ⟨1, { flipState with calls := ["flip"] }, rfl, fun name => ?_⟩
  by_cases hname : name = "flip"
  · subst hname
    decide
  · have hcount : List.count name ["flip"] = 0 := List.count_eq_zero.mpr (by simpa using hname)
    simp [State.callCount, flipState, State.initial, hcount, hname]

/-- The second call is made though the first settles the result, and a number is an operand
neither in front nor behind. -/
theorem connectives_strict_commutative_flipOf :
    flipState.Fresh ∧
      HasValue .structural flipState (.binary default .and (flipOf true) (flipOf false))
        (.boolean false)
        (fun name => (if name = "flip" then 1 else 0) + if name = "flip" then 1 else 0) ∧
      HasValue .structural flipState (.binary default .or (flipOf false) (flipOf true))
        (.boolean true)
        (fun name => (if name = "flip" then 1 else 0) + if name = "flip" then 1 else 0) ∧
      Fails .structural flipState (.binary default .and (flipOf true) (.number default 1)) ∧
      Fails .structural flipState (.binary default .or (.number default 1) (flipOf true)) := by
  have hfresh : flipState.Fresh := by decide
  have htrue := hasValue_flipOf true
  have hfalse := hasValue_flipOf false
  have hnumber : HasValue .structural flipState (.number default 1) (.real 1) fun _ => 0 :=
    ⟨0, flipState, rfl, fun _ => rfl⟩
  have hand := connectives_strict_commutative .structural hfresh (flipOf true) (flipOf false)
    default
  have hor := connectives_strict_commutative .structural hfresh (flipOf false) (flipOf true)
    default
  have hwithout := connectives_strict_commutative .structural hfresh (flipOf true)
    (.number default 1) default
  have hvalues := hand.1 false true _ _ htrue hfalse
  have hvalues' := hor.1 true false _ _ hfalse htrue
  have hfails := hwithout.2 (Or.inl ⟨_, _, htrue⟩) (Or.inl ⟨_, _, hnumber⟩)
    (Or.inr (Or.inl ⟨_, _, hnumber, nofun⟩))
  exact ⟨hfresh, hvalues.1, hvalues'.2.2.1, hfails.1, hfails.2.2.2⟩

end Evaluation

end Piecewise
