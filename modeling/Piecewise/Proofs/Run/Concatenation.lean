import Piecewise.Proofs.Evaluation.Repeated
import Piecewise.Proofs.Typing.Checks
import Piecewise.Proofs.Typing.Settled

/-!
# Concatenation

Concatenation is associative and has the empty list as its identity, for the checker and in runs.
The checker asks the same of the operands in either grouping, and joins of settled types do not
depend on it. A run evaluates the operands in the same order in either grouping. The list between
is made before the last operand in one and after it in the other, which tells new lists apart by
their allocations only.
-/

namespace Piecewise

/-! ## Types -/

namespace Typing

variable {visit : Declaration → Check Unit} {s t : State} {a b c : Expr} {type : Ty}

/-- The type of a concatenation is the join of the types of lists. -/
theorem infer_concat_eq_ok_iff {span : Span} :
    infer visit (.binary span .concat a b) s = .ok type t ↔
      ∃ left u right, infer visit a s = .ok left u ∧ infer visit b u = .ok right t ∧
        left.joinLists right = some type := by
  rw [infer, bind_eq_ok_iff]
  constructor
  · rintro ⟨left, u, hleft, h⟩
    split at h
    · cases h
    · obtain ⟨right, v, hright, h⟩ := bind_eq_ok_iff.mp h
      cases hjoined : left.joinLists right with
      | none => rw [hjoined] at h; cases h
      | some joined =>
        rw [hjoined] at h
        obtain ⟨rfl, rfl⟩ := pure_eq_ok_iff.mp h
        exact ⟨left, u, right, hleft, hright, hjoined⟩
  · rintro ⟨left, u, right, hleft, hright, hjoined⟩
    obtain ⟨⟨α, rfl⟩, _, _⟩ := Ty.joinLists_eq_some hjoined
    refine ⟨.list α, u, hleft, bind_eq_ok_iff.mpr ⟨right, t, hright, ?_⟩⟩
    rw [hjoined]
    rfl

/-- Where all types in the scopes are settled, so are the types of expressions. -/
theorem infer_settled (hs : s.scopes.Settled) (n : Nat)
    (h : infer (visitWithin n) a s = .ok type t) :
    type.isSettled = true ∧ t.scopes.Settled := by
  have hkeeps := infer_keeps hs (visitWithin_keeps hs n) a s .start
  rw [h] at hkeeps
  exact ⟨hkeeps.2, hkeeps.1.settled hs⟩

/-- Either grouping has a type exactly where the other has, and the same type. -/
theorem infer_concat_assoc (hs : s.scopes.Settled) (n : Nat) (inner outer inner' outer' : Span) :
    infer (visitWithin n) (.binary outer .concat (.binary inner .concat a b) c) s = .ok type t ↔
      infer (visitWithin n) (.binary outer' .concat a (.binary inner' .concat b c)) s =
        .ok type t := by
  simp only [infer_concat_eq_ok_iff]
  constructor
  · rintro ⟨ab, v, γ, ⟨α, u, β, ha, hb, hab⟩, hc, hjoined⟩
    obtain ⟨hα, hu⟩ := infer_settled hs n ha
    obtain ⟨hβ, hv⟩ := infer_settled hu n hb
    have hassoc := Ty.joinLists_assoc hα hβ (infer_settled hv n hc).1
    have hright := hassoc.symm.trans (Option.bind_eq_some_iff.mpr ⟨ab, hab, hjoined⟩)
    obtain ⟨bc, hbc, hjoined'⟩ := Option.bind_eq_some_iff.mp hright
    exact ⟨α, u, bc, ha, ⟨β, v, γ, hb, hc, hbc⟩, hjoined'⟩
  · rintro ⟨α, u, bc, ha, ⟨β, v, γ, hb, hc, hbc⟩, hjoined⟩
    obtain ⟨hα, hu⟩ := infer_settled hs n ha
    obtain ⟨hβ, hv⟩ := infer_settled hu n hb
    have hassoc := Ty.joinLists_assoc hα hβ (infer_settled hv n hc).1
    have hleft := hassoc.trans (Option.bind_eq_some_iff.mpr ⟨bc, hbc, hjoined⟩)
    obtain ⟨ab, hab, hjoined'⟩ := Option.bind_eq_some_iff.mp hleft
    exact ⟨ab, v, γ, ⟨α, u, β, ha, hb, hab⟩, hc, hjoined'⟩

theorem joinLists_unresolved_left (α : Ty) :
    (Ty.list .unresolved).joinLists (.list α) = some (.list α) := rfl

theorem joinLists_unresolved_right (α : Ty) :
    (Ty.list α).joinLists (.list .unresolved) = some (.list α) := by
  cases α <;> rfl

/-- The empty list before or after a list changes nothing about its type. -/
theorem infer_concat_nil {α : Ty} (h : infer visit a s = .ok (.list α) t) (span empty : Span) :
    infer visit (.binary span .concat (.list empty []) a) s = .ok (.list α) t ∧
      infer visit (.binary span .concat a (.list empty [])) s = .ok (.list α) t := by
  have hempty : ∀ u, infer visit (.list empty []) u = .ok (.list .unresolved) u := by
    intro u
    rw [infer]
    rfl
  exact ⟨infer_concat_eq_ok_iff.mpr ⟨_, s, _, hempty s, h, joinLists_unresolved_left α⟩,
    infer_concat_eq_ok_iff.mpr ⟨_, t, _, h, hempty t, joinLists_unresolved_right α⟩⟩

end Typing

/-! ## Runs -/

namespace Evaluation

/-- Runs that give lists with the same elements or end for the same reason, after the same calls.
Lists made before are the same in both, new ones have allocations of their own. -/
inductive SameLists (bound : Nat) :
    EStateM.Result Halt State Value → EStateM.Result Halt State Value → Prop
  | list {i j : Nat} {vs ws : List Value} {t u : State} (elements : SameButNew bound vs ws)
      (calls : u.calls = t.calls) : SameLists bound (.ok (.list i vs) t) (.ok (.list j ws) u)
  | halt {halt : Halt} {t u : State} (calls : u.calls = t.calls) :
      SameLists bound (.error halt t) (.error halt u)

theorem SameButNew.refl (bound : Nat) (vs : List Value) : SameButNew bound vs vs :=
  ⟨Eq, ⟨fun _ _ _ h k => h.trans k.symm, fun _ _ _ h k => h.symm.trans k⟩, fun _ _ => rfl,
    Value.paired_selfAll (fun _ => rfl) vs fun _ _ => rfl⟩

theorem SameButNew.mono {bound less : Nat} (hle : less ≤ bound) {vs ws : List Value}
    (h : SameButNew bound vs ws) : SameButNew less vs ws := by
  obtain ⟨same, hunique, hold, hvalues⟩ := h
  exact ⟨same, hunique, fun i hi => hold i (Nat.lt_of_lt_of_le hi hle), hvalues⟩

section Operands

variable {mode : ListEquality} {depth : Nat} {a b c e : Expr} {span : Span} {s t u : State}
  {vs ws : List Value} {halt : Halt}

def elementsOf (mode : ListEquality) (depth : Nat) (e : Expr) : Eval (List Value) :=
  asList e (runExpr mode depth e)

theorem steady_elementsOf (mode : ListEquality) (depth : Nat) (e : Expr) :
    Steady Pairing.ValueLists (elementsOf mode depth e) :=
  fun M n => asList_inStep (runExpr_inStep M mode depth e n)

theorem elementsOf_ok {i : Nat} (h : runExpr mode depth e s = .ok (.list i vs) t) :
    elementsOf mode depth e s = .ok vs t := bind_ok h

theorem elementsOf_error (h : runExpr mode depth e s = .error halt t) :
    elementsOf mode depth e s = .error halt t := bind_error h

theorem concat_ok (ha : elementsOf mode depth a s = .ok vs t)
    (hb : elementsOf mode depth b t = .ok ws u) :
    runExpr mode depth (.binary span .concat a b) s =
      .ok (.list u.allocated (vs ++ ws)) { u with allocated := u.allocated + 1 } :=
  (bind_ok ha).trans (bind_ok hb)

theorem concat_error_left (ha : elementsOf mode depth a s = .error halt t) :
    runExpr mode depth (.binary span .concat a b) s = .error halt t := bind_error ha

theorem concat_error_right (ha : elementsOf mode depth a s = .ok vs t)
    (hb : elementsOf mode depth b t = .error halt u) :
    runExpr mode depth (.binary span .concat a b) s = .error halt u :=
  (bind_ok ha).trans (bind_error hb)

/-- What a run has given stands for itself in every pairing of runs that begin after it. -/
theorem Steady.paired_after {step : Eval (List Value)} (h : Steady Pairing.ValueLists step)
    (hs : s.Fresh) (hstep : step s = .ok vs t) {base n : Nat} (hbase : t.allocated ≤ base)
    (hn : base ≤ n) (gap : Nat) : (Pairing.later base gap).ValueLists n vs vs := by
  have hself := h.rerun hs rfl (Nat.le_refl s.allocated)
  rw [hstep] at hself
  cases hself with
  | ok advance hvalues =>
    refine Value.Paired.monoAll ?_ hvalues
    rintro i j ⟨hi, rfl⟩
    refine ⟨by omega, ?_⟩
    rw [if_pos (Nat.lt_of_lt_of_le hi hbase)]
    split <;> omega

/-- Both groupings run `a`, `b` and `c` in this order. Only the state in which `c` is run differs:
in one grouping a list has been made before, and what `a` and `b` gave is older than that list. -/
theorem concat_assoc (hs : s.Fresh) (inner outer inner' outer' : Span) :
    SameLists s.allocated
      (runExpr mode depth (.binary outer .concat a (.binary inner .concat b c)) s)
      (runExpr mode depth (.binary outer' .concat (.binary inner' .concat a b) c) s) := by
  have hsteady := steady_elementsOf mode depth
  cases ha : elementsOf mode depth a s with
  | error halt t =>
    rw [concat_error_left ha, concat_error_left (elementsOf_error (concat_error_left ha))]
    exact .halt rfl
  | ok vs t =>
    obtain ⟨hadvance, ht⟩ := (hsteady a).of_ok hs ha
    cases hb : elementsOf mode depth b t with
    | error halt u =>
      rw [concat_error_right ha (elementsOf_error (concat_error_left hb)),
        concat_error_left (elementsOf_error (concat_error_right ha hb))]
      exact .halt rfl
    | ok ws u =>
      obtain ⟨hadvance', hu⟩ := (hsteady b).of_ok ht hb
      have hstu : s.allocated ≤ u.allocated := hadvance.le.trans hadvance'.le
      have hab : elementsOf mode depth (.binary inner' .concat a b) s =
          .ok (vs ++ ws) { u with allocated := u.allocated + 1 } :=
        elementsOf_ok (concat_ok ha hb)
      have hagain := (hsteady c).rerun (t := { u with allocated := u.allocated + 1 }) hu rfl
        (Nat.le_succ u.allocated)
      generalize hc : elementsOf mode depth c u = outcome at hagain
      generalize hc' : elementsOf mode depth c { u with allocated := u.allocated + 1 } = outcome'
        at hagain
      cases hagain with
      | error advance =>
        obtain ⟨names, hcalls, hcalls'⟩ := advance.calls
        rw [concat_error_right ha (elementsOf_error (concat_error_right hb hc)),
          concat_error_right hab hc']
        exact .halt (hcalls'.trans hcalls.symm)
      | ok advance hvalues =>
        obtain ⟨names, hcalls, hcalls'⟩ := advance.calls
        have hvs := (hsteady a).paired_after hs ha hadvance'.le advance.le
        have hws := (hsteady b).paired_after ht hb (Nat.le_refl _) advance.le
        have helements := List.rel_append (hvs _) (List.rel_append (hws _) hvalues)
        rw [concat_ok ha (elementsOf_ok (concat_ok hb hc)), concat_ok hab hc', List.append_assoc]
        exact .list ((sameButNew_of_later advance.le helements).mono hstu)
          (hcalls'.trans hcalls.symm)

theorem nil_concat (hs : s.Fresh) {i : Nat} (h : runExpr mode depth a s = .ok (.list i vs) t)
    (span empty : Span) : SameLists s.allocated (.ok (.list i vs) t)
      (runExpr mode depth (.binary span .concat (.list empty []) a) s) := by
  have hagain := (steady_elementsOf mode depth a).rerun
    (t := { s with allocated := s.allocated + 1 }) hs rfl (Nat.le_succ s.allocated)
  rw [elementsOf_ok h] at hagain
  generalize ha : elementsOf mode depth a { s with allocated := s.allocated + 1 } = outcome
    at hagain
  cases hagain with
  | ok advance hvalues =>
    obtain ⟨names, hcalls, hcalls'⟩ := advance.calls
    have hempty : elementsOf mode depth (.list empty []) s =
        .ok [] { s with allocated := s.allocated + 1 } := rfl
    rw [concat_ok hempty ha]
    exact .list (sameButNew_of_later advance.le hvalues) (hcalls'.trans hcalls.symm)

theorem concat_nil {i bound : Nat} (h : runExpr mode depth a s = .ok (.list i vs) t)
    (span empty : Span) : SameLists bound (.ok (.list i vs) t)
      (runExpr mode depth (.binary span .concat a (.list empty [])) s) := by
  have hempty : elementsOf mode depth (.list empty []) t =
      .ok [] { t with allocated := t.allocated + 1 } := rfl
  rw [concat_ok (elementsOf_ok h) hempty, List.append_nil]
  exact .list (SameButNew.refl bound vs) rfl

end Operands

end Evaluation

/-- Concatenation is a monoid. Both groupings of three operands run alike in every state, and have
the same type or none in every state of the checker in which types are settled. The empty list on
either side changes neither the type of a list nor its elements. -/
theorem concat_monoid (a b c : Expr) (inner outer inner' outer' empty : Span) :
    (∀ mode depth s, Evaluation.State.Fresh s →
      Evaluation.SameLists s.allocated
        (Evaluation.runExpr mode depth (.binary outer .concat a (.binary inner .concat b c)) s)
        (Evaluation.runExpr mode depth (.binary outer' .concat (.binary inner' .concat a b) c)
          s)) ∧
    (∀ s : Typing.State, s.scopes.Settled → ∀ type t,
      Typing.typeOf (.binary outer' .concat (.binary inner' .concat a b) c) s = .ok type t ↔
        Typing.typeOf (.binary outer .concat a (.binary inner .concat b c)) s = .ok type t) ∧
    (∀ s t α, Typing.typeOf a s = .ok (.list α) t →
      Typing.typeOf (.binary outer .concat (.list empty []) a) s = .ok (.list α) t ∧
        Typing.typeOf (.binary outer .concat a (.list empty [])) s = .ok (.list α) t) ∧
    ∀ mode depth s i vs t, Evaluation.State.Fresh s →
      Evaluation.runExpr mode depth a s = .ok (.list i vs) t →
      Evaluation.SameLists s.allocated (.ok (.list i vs) t)
          (Evaluation.runExpr mode depth (.binary outer .concat (.list empty []) a) s) ∧
        Evaluation.SameLists s.allocated (.ok (.list i vs) t)
          (Evaluation.runExpr mode depth (.binary outer .concat a (.list empty [])) s) := by
  refine ⟨fun mode depth s hs => ?_, fun s hs type t => ?_, fun s t α h => ?_,
    fun mode depth s i vs t hs h => ⟨?_, ?_⟩⟩
  · exact Evaluation.concat_assoc hs inner outer inner' outer'
  · exact Typing.infer_concat_assoc hs s.scopes.pending inner' outer' inner outer
  · exact Typing.infer_concat_nil h outer empty
  · exact Evaluation.nil_concat hs h outer empty
  · exact Evaluation.concat_nil h outer empty

section Grown

open Evaluation (boundList)

/-- `[xs]`. -/
def oldList : Expr := .list default [.identifier default "xs"]

/-- `[[true]]`. -/
def newListOfList : Expr := .list default [.list default [.boolean default true]]

/-- `[xs] ++ ([] ++ [[true]])`. -/
def grownRight : Expr :=
  .binary default .concat oldList (.binary default .concat (.list default []) newListOfList)

/-- `([xs] ++ []) ++ [[true]]`. -/
def grownLeft : Expr :=
  .binary default .concat (.binary default .concat oldList (.list default [])) newListOfList

/-- The old list is one list in both results. The new ones are made at different times. -/
theorem concat_monoid_grown :
    boundList.Fresh ∧
      Evaluation.runExpr .identityChecked 0 grownRight boundList =
        .ok (.list 6 [.list 0 [.boolean true], .list 3 [.boolean true]])
          { boundList with allocated := 7 } ∧
      Evaluation.runExpr .identityChecked 0 grownLeft boundList =
        .ok (.list 6 [.list 0 [.boolean true], .list 4 [.boolean true]])
          { boundList with allocated := 7 } ∧
      Evaluation.SameLists 1 (Evaluation.runExpr .identityChecked 0 grownRight boundList)
        (Evaluation.runExpr .identityChecked 0 grownLeft boundList) ∧
      ∃ t, Typing.typeOf grownLeft (.initial boundList.scopes) = .ok (.list (.list .boolean)) t ∧
        Typing.typeOf grownRight (.initial boundList.scopes) = .ok (.list (.list .boolean)) t := by
  have hfresh : boundList.Fresh := by decide
  have hsettled : boundList.scopes.Settled :=
    ⟨nofun, List.forall_mem_singleton.mpr (List.forall_mem_singleton.mpr rfl)⟩
  obtain ⟨hruns, htypes, _, _⟩ := concat_monoid oldList (.list default []) newListOfList
    default default default default default
  have hleft : ∃ t, Typing.typeOf grownLeft (.initial boundList.scopes) =
      .ok (.list (.list .boolean)) t := ⟨_, rfl⟩
  obtain ⟨t, hleft⟩ := hleft
  exact ⟨hfresh, rfl, rfl, hruns .identityChecked 0 boundList hfresh, t, hleft,
    (htypes (.initial boundList.scopes) hsettled _ t).mp hleft⟩

end Grown

end Piecewise
