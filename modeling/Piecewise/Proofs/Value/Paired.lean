import Mathlib.Data.List.Forall2
import Mathlib.Logic.Relator
import Piecewise.Value.Builtin
import Piecewise.Value.Equality

/-!
# Values of two runs side by side

Two runs that do the same make lists with allocations of their own, and their functions may be
declared in different programs. Their values are paired when that is all they differ in. Nothing
that is done with values tells paired ones apart, as long as a list of one run stands for one list
of the other only, and a function for one that is called alike.
-/

namespace Piecewise

/-- Declarations that a call does not tell apart. The body of a builtin is never run. -/
structure Declaration.CalledAlike (d e : Declaration) : Prop where
  number : e.number = d.number
  name : e.name = d.name
  parameters : e.parameters = d.parameters
  body : Builtin.ofName? d.name = none → e.body = d.body

theorem Declaration.CalledAlike.refl (d : Declaration) : d.CalledAlike d :=
  ⟨rfl, rfl, rfl, fun _ => rfl⟩

namespace Value

/-- Two values that are alike but for the allocations of lists and the declarations of functions,
which are related as given. -/
inductive Paired (lists : Nat → Nat → Prop) (functions : Declaration → Declaration → Prop) :
    Value → Value → Prop
  | boolean (b : Bool) : Paired lists functions (.boolean b) (.boolean b)
  | real (x : Float) : Paired lists functions (.real x) (.real x)
  | text (s : String) : Paired lists functions (.text s) (.text s)
  | list {i j : Nat} {vs ws : List Value} (allocation : lists i j)
      (elements : List.Forall₂ (Paired lists functions) vs ws) :
      Paired lists functions (.list i vs) (.list j ws)
  | function {d e : Declaration} (declaration : functions d e) :
      Paired lists functions (.function d) (.function e)
  | type (t : Ty) : Paired lists functions (.type t) (.type t)

variable {lists lists' : Nat → Nat → Prop} {functions : Declaration → Declaration → Prop}

mutual

/-- Lists that stand for each other may come to be more. -/
theorem Paired.mono (h : ∀ i j, lists i j → lists' i j) :
    ∀ {v w : Value}, Paired lists functions v w → Paired lists' functions v w
  | .list _ _, _, .list hi hvs => .list (h _ _ hi) (Paired.monoAll h hvs)
  | .boolean _, _, .boolean b => .boolean b
  | .real _, _, .real x => .real x
  | .text _, _, .text s => .text s
  | .function _, _, .function hd => .function hd
  | .type _, _, .type t => .type t

theorem Paired.monoAll (h : ∀ i j, lists i j → lists' i j) :
    ∀ {vs ws : List Value}, List.Forall₂ (Paired lists functions) vs ws →
      List.Forall₂ (Paired lists' functions) vs ws
  | [], _, .nil => .nil
  | _ :: _, _, .cons hv hvs => .cons (Paired.mono h hv) (Paired.monoAll h hvs)

end

mutual

/-- The allocations of a list and of the lists within. -/
def allocations : Value → List Nat
  | list i elements => i :: allocationsAll elements
  | boolean _ | real _ | text _ | function _ | type _ => []

def allocationsAll : List Value → List Nat
  | [] => []
  | v :: rest => v.allocations ++ allocationsAll rest

end

mutual

/-- A value is paired with itself where its lists stand for themselves. -/
theorem paired_self (hfunctions : ∀ d, functions d d) :
    ∀ v : Value, (∀ i ∈ v.allocations, lists i i) → Paired lists functions v v
  | .list i elements, h => by
    obtain ⟨hi, helements⟩ := List.forall_mem_cons.mp h
    exact .list hi (paired_selfAll hfunctions elements helements)
  | .boolean b, _ => .boolean b
  | .real x, _ => .real x
  | .text s, _ => .text s
  | .function d, _ => .function (hfunctions d)
  | .type t, _ => .type t

theorem paired_selfAll (hfunctions : ∀ d, functions d d) :
    ∀ vs : List Value, (∀ i ∈ allocationsAll vs, lists i i) →
      List.Forall₂ (Paired lists functions) vs vs
  | [], _ => .nil
  | v :: rest, h => by
    obtain ⟨hv, hrest⟩ := List.forall_mem_append.mp h
    exact .cons (paired_self hfunctions v hv) (paired_selfAll hfunctions rest hrest)

end

theorem isFunction_paired {v w : Value} (h : Paired lists functions v w) :
    w.isFunction = v.isFunction := by
  cases h <;> rfl

end Value

/-- Which lists and which functions of two runs stand for each other, while both runs make lists in
step. A list that has been made once stands for its counterpart from then on. -/
structure Pairing where
  /-- Whether two allocations are the next ones at the same time. -/
  next : Nat → Nat → Prop
  /-- Whether two allocations stand for each other when the first run has come to a number of
  allocations. -/
  lists : Nat → Nat → Nat → Prop
  functions : Declaration → Declaration → Prop
  next_succ : ∀ {n m}, next n m → next (n + 1) (m + 1)
  lists_succ : ∀ {n i j}, lists n i j → lists (n + 1) i j
  lists_next : ∀ {n m}, next n m → lists (n + 1) n m
  lists_unique : ∀ n, Relator.BiUnique (lists n)
  calledAlike : ∀ {d e}, functions d e → d.CalledAlike e

namespace Pairing

/-- The pairing in which every list stands for itself. -/
def inPlace (functions : Declaration → Declaration → Prop)
    (calledAlike : ∀ {d e}, functions d e → d.CalledAlike e) : Pairing where
  next := Eq
  lists := fun _ => Eq
  functions := functions
  next_succ := congrArg _
  lists_succ := id
  lists_next := id
  lists_unique := fun _ => ⟨fun _ _ _ h k => h.trans k.symm, fun _ _ _ h k => h.symm.trans k⟩
  calledAlike := calledAlike

/-- The pairing for a run that begins a number of allocations later than another. Lists that are
older than the earlier run stand for themselves, every list made in it for the one that the later
run makes at the same point. -/
def later (base gap : Nat) : Pairing where
  next := fun n m => base ≤ n ∧ m = n + gap
  lists := fun n i j => i < n ∧ j = if i < base then i else i + gap
  functions := Eq
  next_succ := by
    rintro n m ⟨hbase, rfl⟩
    exact ⟨by omega, by omega⟩
  lists_succ := by
    rintro n i j ⟨hi, rfl⟩
    exact ⟨by omega, rfl⟩
  lists_next := by
    rintro n m ⟨hbase, rfl⟩
    exact ⟨by omega, by rw [if_neg (by omega)]⟩
  lists_unique := by
    refine fun n => ⟨?_, ?_⟩
    · rintro i i' j ⟨_, rfl⟩ ⟨_, hj⟩
      split at hj <;> split at hj <;> omega
    · rintro i j j' ⟨_, rfl⟩ ⟨_, rfl⟩
      rfl
  calledAlike := by
    rintro d e rfl
    exact .refl d

variable (M : Pairing) {n m : Nat}

/-- Values that stand for each other at a number of allocations. -/
abbrev Values (n : Nat) : Value → Value → Prop := Value.Paired (M.lists n) M.functions

abbrev ValueLists (n : Nat) : List Value → List Value → Prop := List.Forall₂ (M.Values n)

variable {M}

theorem lists_mono (hle : n ≤ m) {i j : Nat} (h : M.lists n i j) : M.lists m i j := by
  induction hle with
  | refl => exact h
  | step _ ih => exact M.lists_succ ih

theorem Values.mono (hle : n ≤ m) {v w : Value} (h : M.Values n v w) : M.Values m v w :=
  Value.Paired.mono (fun _ _ => lists_mono hle) h

theorem ValueLists.mono (hle : n ≤ m) {vs ws : List Value} (h : M.ValueLists n vs ws) :
    M.ValueLists m vs ws :=
  Value.Paired.monoAll (fun _ _ => lists_mono hle) h

/-! ## Comparing values -/

mutual

theorem elementsEqual_paired (mode : ListEquality) : ∀ {v v' w w' : Value},
    M.Values n v v' → M.Values n w w' →
      Value.elementsEqual mode v' w' = Value.elementsEqual mode v w
  | .list _ _, _, _, _, .list hi hvs, hw => by
    cases hw with
    | list hj hws =>
      have hsame := Relator.rel_eq (M.lists_unique n) hi hj
      rw [Value.elementsEqual, Value.elementsEqual, listsEqual_paired mode hvs hws]
      simp only [hsame]
    | boolean | real | text | function | type => rfl
  | .function _, _, _, _, .function hd, hw => by
    cases hw with
    | function he =>
      rw [Value.elementsEqual, Value.elementsEqual, (M.calledAlike hd).number,
        (M.calledAlike he).number]
    | boolean | real | text | list | type => rfl
  | .boolean _, _, _, _, .boolean _, hw | .real _, _, _, _, .real _, hw
  | .text _, _, _, _, .text _, hw | .type _, _, _, _, .type _, hw => by
    cases hw <;> rfl

theorem listsEqual_paired (mode : ListEquality) : ∀ {vs vs' ws ws' : List Value},
    M.ValueLists n vs vs' → M.ValueLists n ws ws' →
      Value.listsEqual mode vs' ws' = Value.listsEqual mode vs ws
  | [], _, _, _, .nil, hws => by cases hws <;> rfl
  | _ :: _, _, _, _, .cons hv hvs, hws => by
    cases hws with
    | nil => rfl
    | cons hw hws =>
      rw [Value.listsEqual, Value.listsEqual, elementsEqual_paired mode hv hw,
        listsEqual_paired mode hvs hws]

end

/-- Paired values are compared alike. -/
theorem equal_paired (mode : ListEquality) (place : Position) {v v' w w' : Value}
    (hv : M.Values n v v') (hw : M.Values n w w') :
    Value.equal mode place v' w' = Value.equal mode place v w := by
  cases hv with
  | list _ hvs =>
    cases hw with
    | list _ hws => rw [Value.equal, Value.equal, listsEqual_paired mode hvs hws]
    | boolean | real | text | function | type => rfl
  | boolean | real | text | function | type => cases hw <;> rfl

/-! ## Builtins -/

inductive SameResult (M : Pairing) (n : Nat) :
    Except Diagnostic Value → Except Diagnostic Value → Prop
  | ok {v w} (h : M.Values n v w) : SameResult M n (.ok v) (.ok w)
  | error (d : Diagnostic) : SameResult M n (.error d) (.error d)

/-- A builtin gives paired values on paired values. If it makes a list, then the next one. -/
theorem apply_paired (b : Builtin) (hnext : M.next n m) {vs ws : List Value}
    (h : M.ValueLists n vs ws) (place : Position) :
    M.SameResult (n + 1) (b.apply n vs place) (b.apply m ws place) := by
  cases h with
  | nil => cases b <;> exact .error _
  | cons hv _ =>
    cases hv with
    | list hi helements =>
      cases helements with
      | nil =>
        cases b with
        | head => exact .error _
        | tail => exact .ok (.list (M.lists_succ hi) .nil)
      | cons hfirst hrest =>
        cases b with
        | head => exact .ok (Values.mono (Nat.le_succ n) hfirst)
        | tail => exact .ok (.list (M.lists_next hnext) (ValueLists.mono (Nat.le_succ n) hrest))
    | boolean | real | text | function | type => cases b <;> exact .error _

end Pairing

namespace Value

variable {functions : Declaration → Declaration → Prop} {lists : Nat → Nat → Prop}

mutual

/-- Values are shown alike where functions have the same names. -/
theorem shown_paired (hname : ∀ d e, functions d e → e.name = d.name) :
    ∀ {v w : Value}, Paired lists functions v w → w.shown = v.shown
  | .list _ _, _, .list _ helements => by
    rw [shown, shown, shownAll_paired hname helements]
  | .function _, _, .function hd => by rw [shown, shown, hname _ _ hd]
  | .boolean _, _, .boolean _ | .real _, _, .real _ | .text _, _, .text _
  | .type _, _, .type _ => rfl

theorem shownAll_paired (hname : ∀ d e, functions d e → e.name = d.name) :
    ∀ {vs ws : List Value}, List.Forall₂ (Paired lists functions) vs ws →
      shownAll ws = shownAll vs
  | [], _, .nil => rfl
  | _ :: _, _, .cons hv hvs => by
    rw [shownAll, shownAll, shown_paired hname hv, shownAll_paired hname hvs]

end

end Value

end Piecewise
