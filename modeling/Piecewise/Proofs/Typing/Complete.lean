import Piecewise.Proofs.Typing.Checks
import Piecewise.Proofs.Typing.Visits

/-!
# What is typed the checker accepts

Where functions are only called, a typing by the rules is what the checker finds, whatever
functions have their type already. The bound on visits inside visits is never spent, since it is
at least the number of functions without a type.
-/

namespace Piecewise.Typing

/-- A step of the checker that succeeds with the given result in the given local scopes, as long
as no more functions than the bound are without a type. -/
def Succeeds {α : Type} (p : Program) (locals : List Scope) (bound : Nat) (step : Check α)
    (a : α) : Prop :=
  ∀ resolved s, s.scopes = ⟨p.globals resolved, locals⟩ → p.unresolved resolved ≤ bound →
    ∃ after t, step s = .ok a t ∧ resolved ⊆ after ∧ t.scopes = ⟨p.globals after, locals⟩

namespace Succeeds

variable {α β : Type} {p : Program} {locals : List Scope} {bound : Nat} {a : α} {b : β}

theorem pure : Succeeds p locals bound (Pure.pure a) a :=
  fun resolved s hs _ => ⟨resolved, s, rfl, fun _ h => h, hs⟩

theorem bind {step : Check α} {next : α → Check β} (h : Succeeds p locals bound step a)
    (k : Succeeds p locals bound (next a) b) : Succeeds p locals bound (step >>= next) b := by
  intro resolved s hs hbound
  obtain ⟨middle, u, hstep, hsubset, hu⟩ := h resolved s hs hbound
  obtain ⟨after, t, hnext, hsubset', ht⟩ :=
    k middle u hu (Nat.le_trans (Program.unresolved_le hsubset) hbound)
  refine ⟨after, t, ?_, fun _ hmem => hsubset' (hsubset hmem), ht⟩
  exact bind_eq_ok_iff.mpr ⟨a, u, hstep, hnext⟩

theorem lift {outcome : Except Diagnostic α} (h : outcome = .ok a) :
    Succeeds p locals bound (Typing.lift outcome) a := by
  rw [h]
  exact pure

theorem ensure {c : Prop} [Decidable c] {d : Diagnostic} (h : c) :
    Succeeds p locals bound (if c then Pure.pure a else throw d) a := by
  rw [if_pos h]
  exact pure

/-- Where every function has its type, no bound is needed for those that have none. -/
theorem of_signatures {step : Check α} (h : Succeeds p locals bound step a) :
    ∃ t, step (.initial ⟨p.signatures, locals⟩) = .ok a t := by
  rw [Program.signatures_eq_globals]
  have hbound : p.unresolved p.names ≤ bound := by
    have hnone : p.unresolved p.names = 0 := List.countP_eq_zero.mpr fun d hd => by
      simp [Program.names, List.mem_map_of_mem hd]
    omega
  obtain ⟨_, t, hstep, _, _⟩ := h p.names (.initial ⟨p.globals p.names, locals⟩) rfl hbound
  exact ⟨t, hstep⟩

end Succeeds

/-- A visit of any function succeeds and gives it its type. -/
def CompleteVisits (p : Program) (bound : Nat) (visit : Declaration → Check Unit) : Prop :=
  ∀ f ∈ p.declarations, ∀ locals resolved s, s.scopes = ⟨p.globals resolved, locals⟩ →
    p.unresolved resolved ≤ bound →
    ∃ after t, visit f s = .ok () t ∧ resolved ⊆ after ∧ f.name ∈ after ∧
      t.scopes = ⟨p.globals after, locals⟩

section Expressions

variable {p : Program} {d : Declaration} {bound : Nat} {visit : Declaration → Check Unit}

/-- A visit on the way to a call gives the callee the type of what it stands for. -/
theorem visitSymbol_complete (hv : CompleteVisits p bound visit) {callee : String}
    {meaning : Meaning} (hlookup : (environment p d).lookup callee = some meaning)
    {inputs : List (Parameter Ty)} {output : Ty} (htype : meaning.type = .function inputs output)
    {resolved : List String} {s : State} (hs : s.scopes = ⟨p.globals resolved, [d.frame]⟩)
    (hbound : p.unresolved resolved ≤ bound) :
    ∃ after t, visitSymbol visit (meaning.symbol resolved callee) s = .ok () t ∧
      resolved ⊆ after ∧ t.scopes = ⟨p.globals after, [d.frame]⟩ ∧
      (meaning.symbol after callee).type = .function inputs output := by
  unfold visitSymbol
  cases meaning with
  | parameter type =>
    have hresolved : ((Meaning.parameter type).symbol resolved callee).type.isResolved = true := by
      change type.isResolved = true
      rw [show type = .function inputs output from htype]
      rfl
    rw [if_pos hresolved]
    exact ⟨resolved, s, rfl, fun _ h => h, hs, htype⟩
  | function f =>
    obtain ⟨hf, hname⟩ := mem_of_lookup hlookup
    rw [Meaning.type_symbol]
    by_cases hknown : callee ∈ resolved
    · rw [if_pos hknown]
      refine ⟨resolved, s, rfl, fun _ h => h, hs, ?_⟩
      rw [Meaning.type_symbol, if_pos hknown]
      exact htype
    · rw [if_neg hknown, Meaning.declaration?_symbol]
      obtain ⟨after, t, hstep, hsubset, hmem, ht⟩ := hv f hf _ resolved s hs hbound
      refine ⟨after, t, hstep, hsubset, ht, ?_⟩
      rw [Meaning.type_symbol, if_pos (hname ▸ hmem)]
      exact htype

theorem calleeType_complete (hv : CompleteVisits p bound visit) {callee : String}
    {meaning : Meaning} (hlookup : (environment p d).lookup callee = some meaning)
    {inputs : List (Parameter Ty)} {output : Ty} (htype : meaning.type = .function inputs output)
    (place : Position) :
    Succeeds p [d.frame] bound (calleeType visit callee place) (inputs, output) := by
  intro resolved s hs hbound
  obtain ⟨after, t, hvisit, hsubset, ht, hsymbol⟩ :=
    visitSymbol_complete hv hlookup htype hs hbound
  refine ⟨after, t, ?_, hsubset, ht⟩
  unfold calleeType
  change EStateM.bind (resolve callee place) (fun symbol =>
    EStateM.bind (visitSymbol visit symbol) fun _ =>
      EStateM.bind (resolve callee place) _) s = _
  simp only [EStateM.bind, resolve_of_lookup hs hlookup, hvisit, resolve_of_lookup ht hlookup,
    hsymbol]
  rfl

theorem expecting_complete {expected : Ty} {e : Expr} {found : Check Ty}
    (h : Succeeds p [d.frame] bound found expected) :
    Succeeds p [d.frame] bound (expecting expected e found) () :=
  .bind h (.ensure (Ty.sameKind_iff.mpr rfl))

mutual

/-- A type by the rules is the one that the checker finds. -/
theorem infer_complete (hv : CompleteVisits p bound visit) : ∀ {e : Expr} {type : Ty},
    HasType callRules (environment p d) e type →
    Succeeds p [d.frame] bound (infer visit e) type
  | .boolean _ _, _, h => by cases h; exact .pure
  | .number _ _, _, h => by cases h; exact .pure
  | .text _ _, _, h => by cases h; exact .pure
  | .identifier span name, _, h => by
    cases h with
    | parameter found =>
      intro resolved s hs _
      refine ⟨resolved, s, ?_, fun _ h => h, hs⟩
      change EStateM.bind (resolve name span.start) (fun symbol => pure symbol.type) s = _
      rw [EStateM.bind, resolve_of_lookup hs found]
      rfl
    | function allowed => exact allowed.elim
  | .call span callee arguments, _, h => by
    cases h with
    | call found signature typed accepted =>
      obtain ⟨received, hreceived, harguments⟩ := inferAll_complete hv typed
      refine .bind (calleeType_complete hv found signature span.start) (.bind harguments ?_)
      refine .bind (.lift (checkArguments_eq_ok_iff.mpr ?_)) .pure
      rw [hreceived]
      exact accepted
  | .unary _ .not operand, _, h => by
    cases h with
    | not typed => exact .bind (expecting_complete (infer_complete hv typed)) .pure
  | .unary _ .negate operand, _, h => by
    cases h with
    | negate typed => exact .bind (expecting_complete (infer_complete hv typed)) .pure
  | .binary _ op left right, _, h => by
    cases h with
    | and first second =>
      refine .bind (expecting_complete (infer_complete hv first)) ?_
      exact .bind (expecting_complete (infer_complete hv second)) .pure
    | or first second =>
      refine .bind (expecting_complete (infer_complete hv first)) ?_
      exact .bind (expecting_complete (infer_complete hv second)) .pure
    | arithmetic first second =>
      refine .bind (expecting_complete (infer_complete hv first)) ?_
      exact .bind (expecting_complete (infer_complete hv second)) .pure
    | compare first second =>
      refine .bind (expecting_complete (infer_complete hv first)) ?_
      exact .bind (expecting_complete (infer_complete hv second)) .pure
    | equals first second same =>
      refine .bind (infer_complete hv first) (.bind (infer_complete hv second) ?_)
      exact .ensure same
    | concat first second joined =>
      obtain ⟨⟨α, rfl⟩, _, _⟩ := Ty.joinLists_eq_some joined
      refine .bind (infer_complete hv first) (.bind (infer_complete hv second) ?_)
      rw [joined]
      exact .pure
  | .conditional _ condition whenTrue whenFalse, _, h => by
    cases h with
    | conditional guard first second joined =>
      refine .bind (expecting_complete (infer_complete hv guard)) ?_
      refine .bind (infer_complete hv first) (.bind (infer_complete hv second) ?_)
      exact .lift (joinAt_eq_ok_iff.mpr joined)
  | .list _ [], _, h => by
    cases h with
    | empty => exact .pure
    | list typed joined =>
      cases typed
      cases joined
  | .list _ (first :: rest), _, h => by
    cases h with
    | list typed joined =>
      cases typed with
      | cons hfirst hrest =>
        exact .bind (infer_complete hv hfirst) (.bind (inferJoined_complete hv hrest joined) .pure)

theorem inferAll_complete (hv : CompleteVisits p bound visit) : ∀ {es : List Expr}
    {types : List Ty}, HaveTypes callRules (environment p d) es types →
    ∃ found, found.map Prod.fst = types ∧ Succeeds p [d.frame] bound (inferAll visit es) found
  | [], _, h => by
    cases h
    exact ⟨[], rfl, .pure⟩
  | e :: rest, _, h => by
    cases h with
    | cons first others =>
      obtain ⟨found, hfound, hrest⟩ := inferAll_complete hv others
      refine ⟨(_, e.start) :: found, by rw [List.map_cons, hfound], ?_⟩
      exact .bind (infer_complete hv first) (.bind hrest .pure)

theorem inferJoined_complete (hv : CompleteVisits p bound visit) : ∀ {es : List Expr}
    {types : List Ty} {type joined : Ty}, HaveTypes callRules (environment p d) es types →
    types.foldlM Ty.join type = some joined →
    Succeeds p [d.frame] bound (inferJoined visit type es) joined
  | [], _, _, _, h, hjoined => by
    cases h
    cases hjoined
    exact .pure
  | e :: rest, _, type, joined, h, hjoined => by
    cases h with
    | cons first others =>
      rw [List.foldlM_cons] at hjoined
      obtain ⟨next, hnext, hrest⟩ := Option.bind_eq_some_iff.mp hjoined
      refine .bind (infer_complete hv first) (.bind (.lift (joinAt_eq_ok_iff.mpr hnext)) ?_)
      exact inferJoined_complete hv others hrest

end

theorem inferBranches_complete (hv : CompleteVisits p bound visit) {branches : List Branch}
    {types : List Ty} (h : BranchesHaveTypes callRules (environment p d) branches types) :
    ∃ found, found.map Prod.fst = types ∧
      Succeeds p [d.frame] bound (inferBranches visit branches) found := by
  induction h with
  | nil => exact ⟨[], rfl, .pure⟩
  | @cons branch rest type types guard action _ ih =>
    obtain ⟨found, hfound, hrest⟩ := ih
    refine ⟨(type, branch.action.start) :: found, by rw [List.map_cons, hfound], ?_⟩
    refine .bind (expecting_complete (infer_complete hv guard)) ?_
    exact .bind (infer_complete hv action) (.bind hrest .pure)

theorem inferBody_complete (hv : CompleteVisits p bound visit) {body : Body} {type : Ty}
    (h : BodyHasType callRules (environment p d) body type) :
    Succeeds p [d.frame] bound (inferBody visit body) type := by
  cases h with
  | inline typed => exact infer_complete hv typed
  | @piecewise span branches otherwise types last type guarded typed joined =>
    obtain ⟨found, hfound, hbranches⟩ := inferBranches_complete hv guarded
    refine .bind hbranches (.bind (infer_complete hv typed) ?_)
    subst hfound
    cases found with
    | nil =>
      have hlast : last = type := Option.some.inj joined
      rw [hlast]
      exact .pure
    | cons first rest =>
      obtain ⟨a, place⟩ := first
      refine .lift (joinAll_eq_ok_iff.mpr ?_)
      simpa [Ty.joinMany] using joined

end Expressions

section Visits

variable {p : Program}

theorem visitBody_complete (hp : p.names.Nodup) {d : Declaration} (hd : d ∈ p.declarations)
    (htyped : WellTyped callRules p d) {bound : Nat} {visit : Declaration → Check Unit}
    (hv : CompleteVisits p bound visit) {resolved : List String} (hnew : d.name ∉ resolved)
    (hbound : p.unresolved resolved ≤ bound + 1) {s : State}
    (hs : s.scopes = ⟨p.globals resolved, [.empty]⟩) :
    ∃ after t, visitBody visit d s = .ok () t ∧ resolved ⊆ after ∧ d.name ∈ after ∧
      t.scopes = ⟨p.globals after, [d.frame]⟩ := by
  obtain ⟨type, hbody, hagrees⟩ := htyped.body
  have hless : p.unresolved (d.name :: resolved) ≤ bound := by
    have hlt := Program.unresolved_cons_lt hd hnew
    omega
  obtain ⟨after, t, hstep, hsubset, ht⟩ := inferBody_complete hv hbody (d.name :: resolved)
    ⟨⟨p.globals (d.name :: resolved), [d.frame]⟩, d.name :: s.visited⟩ rfl hless
  refine ⟨after, t, ?_, fun _ hmem => hsubset (List.mem_cons_of_mem _ hmem),
    hsubset List.mem_cons_self, ht⟩
  exact (visitBody_eq_ok_iff hp hd hs visit).mpr ⟨htyped.distinct, type, hstep, hagrees⟩

/-- Visits succeed within the number of functions that are without a type. -/
theorem visitWithin_complete (hp : p.names.Nodup)
    (htyped : ∀ d ∈ p.declarations, WellTyped callRules p d) :
    ∀ n, CompleteVisits p n (visitWithin n) := by
  intro n
  induction n with
  | zero =>
    intro d hd locals resolved s hs hbound
    have hmem : d.name ∈ resolved := by
      by_contra hnew
      have hlt := Program.unresolved_cons_lt hd hnew
      omega
    exact ⟨resolved, s, unlessResolved_of_mem hp hd hs hmem _, fun _ h => h, hmem, hs⟩
  | succ n ih =>
    intro d hd locals resolved s hs hbound
    rw [visitWithin]
    by_cases hmem : d.name ∈ resolved
    · exact ⟨resolved, s, unlessResolved_of_mem hp hd hs hmem _, fun _ h => h, hmem, hs⟩
    · obtain ⟨after, u, hbody, hsubset, hafter, hu⟩ :=
        visitBody_complete hp hd (htyped d hd) ih hmem hbound
          (s := { s with scopes := ⟨p.globals resolved, [.empty]⟩ }) rfl
      refine ⟨after, { u with scopes := ⟨u.scopes.global, locals⟩ }, ?_, hsubset, hafter,
        by rw [hu]⟩
      rw [unlessResolved_of_not_mem hp hd hs hmem]
      exact (inFrame_eq_ok_iff hs).mpr ⟨u, hbody, rfl⟩

theorem visitAll_complete (hp : p.names.Nodup)
    (htyped : ∀ d ∈ p.declarations, WellTyped callRules p d) : ∀ (ds : List Declaration),
    (∀ d ∈ ds, d ∈ p.declarations) → ∀ {resolved : List String} {s : State},
    s.scopes = ⟨p.globals resolved, []⟩ → ∃ t, visitAll ds s = .ok () t := by
  intro ds
  induction ds with
  | nil => intro _ resolved s _; exact ⟨s, rfl⟩
  | cons d ds ih =>
    intro hds resolved s hs
    have hbound : p.unresolved resolved ≤ s.scopes.pending :=
      Nat.le_of_eq (by rw [hs, Program.pending_globals])
    obtain ⟨after, u, hvisit, _, _, hu⟩ := visitWithin_complete hp htyped s.scopes.pending d
      (hds d List.mem_cons_self) [] resolved s hs hbound
    obtain ⟨t, ht⟩ := ih (fun e he => hds e (List.mem_cons_of_mem _ he)) hu
    refine ⟨t, ?_⟩
    change EStateM.bind (visit d) (fun _ => visitAll ds) s = _
    have hstep : visit d s = .ok () u := hvisit
    rw [EStateM.bind, hstep]
    exact ht

end Visits

end Piecewise.Typing
