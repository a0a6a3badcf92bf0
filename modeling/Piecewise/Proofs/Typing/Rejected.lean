import Mathlib.Data.List.Chain
import Piecewise.Proofs.Typing.Resolution

/-!
# What a failed check breaks off

A check fails in the middle of visits that are inside one another. The functions of these visits
have their types already, and each calls the next; every other function that the check gave its type
is in order. Types stay, so a later check in the same scopes passes over all of these functions. It
succeeds only if every function is in order but for those that an earlier check broke off.
-/

namespace Piecewise

namespace Typing

/-- The body of the first function has a call of the second. -/
def Calls (d f : Declaration) : Prop := ∃ c ∈ d.body.calls, c.callee = f.name

/-- The functions that have their type before and after a step that fails. Those that were added
are in order, unless they are on a chain of calls, of which the first is of a name as asked for. -/
structure BreaksOff (p : Program) (first : String → Prop) (before after : List String)
    (chain : List Declaration) : Prop where
  subset : before ⊆ after
  head : ∀ d ∈ chain.head?, first d.name
  calls : chain.IsChain Calls
  added : ∀ d ∈ chain,
    d ∈ p.declarations ∧ d.parameterNames.Nodup ∧ d.name ∈ after ∧ d.name ∉ before
  typed : ∀ d ∈ p.declarations, d.name ∈ after → d.name ∉ before → d ∉ chain →
    WellTyped checkerRules p d

section BreaksOff

variable {p : Program} {first : String → Prop} {before middle after : List String}
  {chain : List Declaration}

theorem Grows.breaksOff (h : Grows p before after) : BreaksOff p first before after [] :=
  ⟨h.subset, nofun, .nil, nofun, fun d hd hafter hbefore _ => h.typed d hd hafter hbefore⟩

namespace BreaksOff

theorem weaken {first' : String → Prop} (h : BreaksOff p first before after chain)
    (k : ∀ name, first name → first' name) : BreaksOff p first' before after chain :=
  ⟨h.subset, fun d hd => k _ (h.head d hd), h.calls, h.added, h.typed⟩

/-- What a step breaks off is broken off by the steps before it and this one together. -/
theorem after_grows (h : Grows p before middle) (k : BreaksOff p first middle after chain) :
    BreaksOff p first before after chain := by
  refine ⟨fun _ hmem => k.subset (h.subset hmem), k.head, k.calls, fun d hd => ?_, ?_⟩
  · obtain ⟨hdeclared, hnodup, hafter, hnew⟩ := k.added d hd
    exact ⟨hdeclared, hnodup, hafter, fun hmem => hnew (h.subset hmem)⟩
  · intro d hd hafter hbefore hchain
    by_cases hmiddle : d.name ∈ middle
    · exact h.typed d hd hmiddle hbefore
    · exact k.typed d hd hafter hmiddle hchain

/-- A visit whose body is broken off is the first of the chain. -/
theorem of_visit (hp : p.names.Nodup) {d : Declaration} (hd : d ∈ p.declarations)
    (hnodup : d.parameterNames.Nodup) (hnew : d.name ∉ before)
    (h : BreaksOff p (fun name => ∃ c ∈ d.body.calls, c.callee = name) (d.name :: before) after
      chain) : BreaksOff p (· = d.name) before after (d :: chain) := by
  have hafter : d.name ∈ after := h.subset List.mem_cons_self
  refine ⟨fun _ hmem => h.subset (List.mem_cons_of_mem _ hmem), ?_, ?_, ?_, ?_⟩
  · rintro f ⟨⟩
    rfl
  · exact List.isChain_cons.mpr ⟨h.head, h.calls⟩
  · refine List.forall_mem_cons.mpr ⟨⟨hd, hnodup, hafter, hnew⟩, fun f hf => ?_⟩
    obtain ⟨hdeclared, hnodup', hafter', hnew'⟩ := h.added f hf
    exact ⟨hdeclared, hnodup', hafter', fun hmem => hnew' (List.mem_cons_of_mem _ hmem)⟩
  · intro f hf hafter' hbefore hchain
    rw [List.mem_cons, not_or] at hchain
    refine h.typed f hf hafter' ?_ hchain.2
    rw [List.mem_cons, not_or]
    exact ⟨fun hname => hchain.1 (List.inj_on_of_nodup_map hp hf hd hname), hbefore⟩

end BreaksOff

end BreaksOff

/-- A step in the given local scopes that adds only functions in order where it succeeds, and breaks
off a chain of calls where it fails. -/
structure Unwinds {α : Type} (p : Program) (locals : List Scope) (first : String → Prop)
    (step : Check α) : Prop where
  sound : Sound p locals step fun _ => True
  breaksOff : ∀ resolved s fault t, s.scopes = ⟨p.globals resolved, locals⟩ →
    step s = .error fault t →
    ∃ after chain, BreaksOff p first resolved after chain ∧ t.scopes = ⟨p.globals after, locals⟩

namespace Unwinds

variable {α β : Type} {p : Program} {locals : List Scope} {first : String → Prop}

theorem pure (a : α) : Unwinds p locals first (Pure.pure a : Check α) :=
  ⟨.pure trivial, fun _ _ _ _ _ h => nomatch h⟩

theorem throw (d : Diagnostic) : Unwinds p locals first (MonadExcept.throw d : Check α) := by
  refine ⟨.throw, fun resolved s fault t hs h => ?_⟩
  cases h
  exact ⟨resolved, [], (Grows.refl p resolved).breaksOff, hs⟩

theorem bind {step : Check α} {next : α → Check β} (h : Unwinds p locals first step)
    (k : ∀ a, Unwinds p locals first (next a)) : Unwinds p locals first (step >>= next) := by
  refine ⟨.bind h.sound fun a _ => (k a).sound, fun resolved s fault t hs herror => ?_⟩
  rcases bind_eq_error_iff.mp herror with hstep | ⟨a, u, hstep, hnext⟩
  · exact h.breaksOff resolved s fault t hs hstep
  · obtain ⟨middle, hgrows, hu, _⟩ := h.sound resolved s a u hs hstep
    obtain ⟨after, chain, hbroken, ht⟩ := (k a).breaksOff middle u fault t hu hnext
    exact ⟨after, chain, hbroken.after_grows hgrows, ht⟩

theorem weaken {first' : String → Prop} {step : Check α} (h : Unwinds p locals first step)
    (k : ∀ name, first name → first' name) : Unwinds p locals first' step := by
  refine ⟨h.sound, fun resolved s fault t hs herror => ?_⟩
  obtain ⟨after, chain, hbroken, ht⟩ := h.breaksOff resolved s fault t hs herror
  exact ⟨after, chain, hbroken.weaken k, ht⟩

theorem lift (outcome : Except Diagnostic α) : Unwinds p locals first (Typing.lift outcome) := by
  cases outcome with
  | ok a => exact pure a
  | error d => exact throw d

/-- A comparison on which a step goes on or fails. -/
theorem ensure {c : Prop} [Decidable c] (a : α) (d : Diagnostic) :
    Unwinds p locals first (if c then Pure.pure a else MonadExcept.throw d : Check α) := by
  split
  · exact pure a
  · exact throw d

/-- What follows a name in the frame of a function is done with the symbol of what it stands for. -/
theorem resolve_bind {d : Declaration} {name : String} {place : Position} {next : Symbol → Check α}
    (k : ∀ meaning resolved, (environment p d).lookup name = some meaning →
      Unwinds p [d.frame] first (next (meaning.symbol resolved name))) :
    Unwinds p [d.frame] first (Typing.resolve name place >>= next) := by
  constructor
  · refine .bind .resolve ?_
    rintro _ ⟨meaning, resolved, hlookup, rfl⟩
    exact (k meaning resolved hlookup).sound
  · intro resolved s fault t hs herror
    rcases bind_eq_error_iff.mp herror with hfail | ⟨symbol, u, hfound, hnext⟩
    · exact (lift (s.scopes.resolve name place)).breaksOff resolved s fault t hs hfail
    · obtain ⟨_, _, _, meaning, _, hlookup, _⟩ := Sound.resolve resolved s symbol u hs hfound
      rw [resolve_of_lookup hs hlookup] at hfound
      obtain ⟨rfl, rfl⟩ := EStateM.Result.ok.inj hfound
      exact (k meaning resolved hlookup).breaksOff resolved s fault t hs hnext

end Unwinds

def UnwindingVisits (p : Program) (locals : List Scope) (visit : Declaration → Check Unit) : Prop :=
  ∀ f ∈ p.declarations, Unwinds p locals (· = f.name) (visit f)

section Expressions

variable {p : Program} {d : Declaration} {visit : Declaration → Check Unit}
  {first : String → Prop}

/-- What a callee breaks off starts with the callee. -/
theorem calleeType_unwinds (hv : UnwindingVisits p [d.frame] visit) {callee : String}
    (hcallee : first callee) (place : Position) :
    Unwinds p [d.frame] first (calleeType visit callee place) := by
  refine .resolve_bind fun meaning resolved hlookup => ?_
  have hvisit : Unwinds p [d.frame] first
      (visitSymbol visit (meaning.symbol resolved callee)) := by
    unfold visitSymbol
    split
    · exact .pure ()
    · cases meaning with
      | parameter type => exact .pure ()
      | function f =>
        obtain ⟨hf, hname⟩ := mem_of_lookup hlookup
        rw [Meaning.declaration?_symbol]
        exact (hv f hf).weaken fun name hsame => by rwa [hsame, hname]
  refine .bind hvisit fun _ => .resolve_bind fun found _ _ => ?_
  split
  · exact .pure _
  · exact .throw _

theorem expecting_unwinds {found : Check Ty} (h : Unwinds p [d.frame] first found) (expected : Ty)
    (e : Expr) : Unwinds p [d.frame] first (expecting expected e found) :=
  .bind h fun _ => .ensure () _

mutual

/-- What an expression breaks off starts with a callee of the expression. -/
theorem infer_unwinds (hv : UnwindingVisits p [d.frame] visit) : ∀ e : Expr,
    (∀ c ∈ e.calls, first c.callee) → Unwinds p [d.frame] first (infer visit e)
  | .boolean _ _, _ | .number _ _, _ | .text _ _, _ => .pure _
  | .identifier _ _, _ => .resolve_bind fun _ _ _ => .pure _
  | .call span callee arguments, h => by
    obtain ⟨hcallee, harguments⟩ := List.forall_mem_cons.mp h
    refine .bind (calleeType_unwinds hv hcallee span.start) fun found => ?_
    refine .bind (inferAll_unwinds hv arguments harguments) fun received => ?_
    exact .bind (.lift _) fun _ => .pure found.2
  | .unary _ .not operand, h | .unary _ .negate operand, h =>
    .bind (expecting_unwinds (infer_unwinds hv operand h) _ operand) fun _ => .pure _
  | .binary _ op left right, h => by
    obtain ⟨hcalls, hcalls'⟩ := List.forall_mem_append.mp h
    have hleft := infer_unwinds hv left hcalls
    have hright := infer_unwinds hv right hcalls'
    cases op with
    | or | and | arithmetic _ | compare _ =>
      refine .bind (expecting_unwinds hleft _ left) fun _ => ?_
      exact .bind (expecting_unwinds hright _ right) fun _ => .pure _
    | equals => exact .bind hleft fun a => .bind hright fun b => .ensure _ _
    | concat =>
      have hjoined : ∀ a : Ty, Unwinds p [d.frame] first (infer visit right >>= fun b =>
          match a.joinLists b with
          | some type => pure type
          | none => throw (mismatch a b right.start)) := by
        refine fun a => .bind hright fun b => ?_
        split
        · exact .pure _
        · exact .throw _
      refine .bind hleft fun a => ?_
      split
      · exact .bind (.throw _) fun _ => hjoined a
      · exact hjoined a
  | .conditional _ condition whenTrue whenFalse, h => by
    obtain ⟨hcondition, hbranches⟩ := List.forall_mem_append.mp h
    obtain ⟨htrue, hfalse⟩ := List.forall_mem_append.mp hbranches
    refine .bind (expecting_unwinds (infer_unwinds hv condition hcondition) _ condition) fun _ => ?_
    refine .bind (infer_unwinds hv whenTrue htrue) fun a => ?_
    exact .bind (infer_unwinds hv whenFalse hfalse) fun b => .lift _
  | .list _ [], _ => .pure _
  | .list _ (e :: rest), h => by
    obtain ⟨he, hrest⟩ := List.forall_mem_append.mp h
    refine .bind (infer_unwinds hv e he) fun type => ?_
    exact .bind (inferJoined_unwinds hv rest hrest type) fun joined => .pure _

theorem inferAll_unwinds (hv : UnwindingVisits p [d.frame] visit) : ∀ es : List Expr,
    (∀ c ∈ Expr.callsAll es, first c.callee) → Unwinds p [d.frame] first (inferAll visit es)
  | [], _ => .pure _
  | e :: rest, h => by
    obtain ⟨he, hrest⟩ := List.forall_mem_append.mp h
    refine .bind (infer_unwinds hv e he) fun type => ?_
    exact .bind (inferAll_unwinds hv rest hrest) fun found => .pure _

theorem inferJoined_unwinds (hv : UnwindingVisits p [d.frame] visit) : ∀ es : List Expr,
    (∀ c ∈ Expr.callsAll es, first c.callee) →
    ∀ type : Ty, Unwinds p [d.frame] first (inferJoined visit type es)
  | [], _, type => .pure type
  | e :: rest, h, type => by
    obtain ⟨he, hrest⟩ := List.forall_mem_append.mp h
    refine .bind (infer_unwinds hv e he) fun received => ?_
    exact .bind (.lift _) fun joined => inferJoined_unwinds hv rest hrest joined

end

theorem inferBranches_unwinds (hv : UnwindingVisits p [d.frame] visit) {branches : List Branch}
    (h : ∀ branch ∈ branches, (∀ c ∈ branch.guard.calls, first c.callee) ∧
      ∀ c ∈ branch.action.calls, first c.callee) :
    Unwinds p [d.frame] first (inferBranches visit branches) := by
  induction branches with
  | nil => exact .pure _
  | cons branch rest ih =>
    obtain ⟨⟨hguard, haction⟩, hrest⟩ := List.forall_mem_cons.mp h
    refine .bind (expecting_unwinds (infer_unwinds hv _ hguard) _ _) fun _ => ?_
    refine .bind (infer_unwinds hv _ haction) fun type => ?_
    exact .bind (ih hrest) fun found => .pure _

/-- What a body breaks off starts with a callee of the body. -/
theorem inferBody_unwinds (hv : UnwindingVisits p [d.frame] visit) {body : Body}
    (h : ∀ c ∈ body.calls, first c.callee) :
    Unwinds p [d.frame] first (inferBody visit body) := by
  have hparts : ∀ e ∈ body.parts, ∀ c ∈ e.calls, first c.callee :=
    fun e he c hc => h c (List.mem_flatMap_of_mem he hc)
  cases body with
  | inline value => exact infer_unwinds hv value (hparts value List.mem_cons_self)
  | piecewise span branches otherwise =>
    have hotherwise := hparts otherwise (List.mem_append_right _ List.mem_cons_self)
    have hbranches : ∀ branch ∈ branches, (∀ c ∈ branch.guard.calls, first c.callee) ∧
        ∀ c ∈ branch.action.calls, first c.callee := by
      intro branch hb
      have hinside : ∀ e ∈ [branch.guard, branch.action], ∀ c ∈ e.calls, first c.callee :=
        fun e he => hparts e (List.mem_append_left _ (List.mem_flatMap_of_mem hb he))
      obtain ⟨hguard, haction⟩ := List.forall_mem_cons.mp hinside
      exact ⟨hguard, haction _ List.mem_cons_self⟩
    refine .bind (inferBranches_unwinds hv hbranches) fun guarded => ?_
    refine .bind (infer_unwinds hv otherwise hotherwise) fun last => ?_
    cases guarded with
    | nil => exact .pure last
    | cons found rest => exact .lift _

end Expressions

section Visits

variable {p : Program} {d : Declaration} {resolved : List String} {s t : State}
  {fault : Diagnostic}

theorem inFrame_eq_error_iff {global : Scope} {locals : List Scope} {step : Check Unit}
    (hs : s.scopes = ⟨global, locals⟩) :
    inFrame step s = .error fault t ↔
      ∃ u, step { s with scopes := ⟨global, [.empty]⟩ } = .error fault u ∧
        t = { u with scopes := ⟨u.scopes.global, locals⟩ } := by
  unfold inFrame
  rw [hs]
  simp only [Scopes.enterFrame, Scopes.leaveFrame]
  cases step { s with scopes := ⟨global, [.empty]⟩ } with
  | error fault u => simp [eq_comm]
  | ok _ u => simp

/-- Where a function fails before its body is looked at, two of its parameters have one name, and no
function was given a type. -/
theorem declareParameters_eq_error {global : Scope} (hs : s.scopes = ⟨global, [.empty]⟩)
    (h : declareParameters d.parameters s = .error fault t) :
    ¬ d.parameterNames.Nodup ∧ t.scopes.global = global := by
  constructor
  · intro hnodup
    rw [(declareParameters_empty_eq_ok_iff hs d).mpr ⟨hnodup, rfl⟩] at h
    cases h
  · obtain ⟨scopes, visited⟩ := s
    subst hs
    rcases declareParameters_frame d.parameters .empty with ⟨_, hok⟩ | ⟨_, _, herror⟩
    · rw [hok] at h
      cases h
    · rw [herror] at h
      cases h
      rfl

/-- A function whose visit fails has broken off a chain that starts with it, unless two of its
parameters have one name. The type is written down before the body is looked at, and no failure
takes it back. -/
theorem visitBody_breaksOff (hp : p.names.Nodup) (hd : d ∈ p.declarations)
    (hnew : d.name ∉ resolved) {visit : Declaration → Check Unit}
    (hv : UnwindingVisits p [d.frame] visit) (hs : s.scopes = ⟨p.globals resolved, [.empty]⟩)
    (h : visitBody visit d s = .error fault t) :
    ∃ after chain, BreaksOff p (· = d.name) resolved after chain ∧
      t.scopes.global = p.globals after ∧ (d.parameterNames.Nodup → chain ≠ []) := by
  rcases bind_eq_error_iff.mp h with hparameters | ⟨_, u, hparameters, h⟩
  · obtain ⟨hrepeats, hglobal⟩ := declareParameters_eq_error hs hparameters
    exact ⟨resolved, [], (Grows.refl p resolved).breaksOff, hglobal, fun k => absurd k hrepeats⟩
  · obtain ⟨hnodup, rfl⟩ := (declareParameters_empty_eq_ok_iff hs d).mp hparameters
    rcases bind_eq_error_iff.mp h with hrecord | ⟨_, v, hrecord, h⟩
    · cases hrecord
    rw [record_eq hp hd rfl] at hrecord
    cases hrecord
    have hbody : Unwinds p [d.frame] (fun name => ∃ c ∈ d.body.calls, c.callee = name)
        (inferBody visit d.body) := inferBody_unwinds hv fun c hc => ⟨c, hc, rfl⟩
    obtain ⟨after, chain, hbroken, ht⟩ :=
      (hbody.bind fun received => .ensure () _).breaksOff (d.name :: resolved) _ fault t rfl h
    refine ⟨after, d :: chain, hbroken.of_visit hp hd hnodup hnew, ?_, fun _ => ?_⟩
    · rw [ht]
    · exact List.cons_ne_nil d chain

/-- A visit in the middle of others leaves their scopes as they are. -/
theorem visitWithin_breaksOff (hp : p.names.Nodup) : ∀ (n : Nat) {d : Declaration},
    d ∈ p.declarations → ∀ {locals : List Scope} {resolved : List String} {s t : State}
    {fault : Diagnostic}, s.scopes = ⟨p.globals resolved, locals⟩ →
    visitWithin n d s = .error fault t →
    ∃ after chain, BreaksOff p (· = d.name) resolved after chain ∧
      t.scopes = ⟨p.globals after, locals⟩ ∧ (d.parameterNames.Nodup → chain ≠ []) := by
  intro n
  induction n with
  | zero =>
    intro d hd locals resolved s t fault hs h
    by_cases hmem : d.name ∈ resolved
    · rw [visitWithin, unlessResolved_of_mem hp hd hs hmem] at h
      cases h
    · rw [visitWithin, unlessResolved_of_not_mem hp hd hs hmem] at h
      cases h
  | succ n ih =>
    intro d hd locals resolved s t fault hs h
    by_cases hmem : d.name ∈ resolved
    · rw [visitWithin, unlessResolved_of_mem hp hd hs hmem] at h
      cases h
    · rw [visitWithin, unlessResolved_of_not_mem hp hd hs hmem, inFrame_eq_error_iff hs] at h
      obtain ⟨u, hbody, rfl⟩ := h
      have hv : UnwindingVisits p [d.frame] (visitWithin n) := by
        intro f hf
        refine ⟨soundVisits_visitWithin hp [d.frame] n f hf, fun resolved s fault t hs h => ?_⟩
        obtain ⟨after, chain, hbroken, ht, _⟩ := ih hf hs h
        exact ⟨after, chain, hbroken, ht⟩
      obtain ⟨after, chain, hbroken, hu, hchain⟩ := visitBody_breaksOff hp hd hmem hv rfl hbody
      exact ⟨after, chain, hbroken, by rw [hu], hchain⟩

theorem visit_breaksOff (hp : p.names.Nodup) (hd : d ∈ p.declarations) {locals : List Scope}
    (hs : s.scopes = ⟨p.globals resolved, locals⟩) (h : visit d s = .error fault t) :
    ∃ after chain, BreaksOff p (· = d.name) resolved after chain ∧
      t.scopes = ⟨p.globals after, locals⟩ ∧ (d.parameterNames.Nodup → chain ≠ []) :=
  visitWithin_breaksOff hp s.scopes.pending hd hs h

/-- A walk over functions that fails has broken off one chain, and all that it visited before is in
order. -/
theorem visitAll_breaksOff (hp : p.names.Nodup) : ∀ (ds : List Declaration),
    (∀ d ∈ ds, d ∈ p.declarations) → ∀ {resolved : List String} {s t : State} {fault : Diagnostic},
    s.scopes = ⟨p.globals resolved, []⟩ → visitAll ds s = .error fault t →
    ∃ after chain, BreaksOff p (fun _ => True) resolved after chain ∧
      t.scopes = ⟨p.globals after, []⟩ ∧ ((∀ d ∈ ds, d.parameterNames.Nodup) → chain ≠ []) := by
  intro ds
  induction ds with
  | nil =>
    intro _ resolved s t fault hs h
    cases h
  | cons d ds ih =>
    intro hds resolved s t fault hs h
    obtain ⟨hd, hds⟩ := List.forall_mem_cons.mp hds
    rcases bind_eq_error_iff.mp h with hfirst | ⟨_, u, hfirst, hrest⟩
    · obtain ⟨after, chain, hbroken, ht, hchain⟩ := visit_breaksOff hp hd hs hfirst
      exact ⟨after, chain, hbroken.weaken fun _ _ => trivial, ht,
        fun hnodup => hchain (hnodup d List.mem_cons_self)⟩
    · obtain ⟨middle, hgrows, hu, _⟩ := visit_sound hp hd hs hfirst
      obtain ⟨after, chain, hbroken, ht, hchain⟩ := ih hds hu hrest
      exact ⟨after, chain, hbroken.after_grows hgrows, ht,
        fun hnodup => hchain fun e he => hnodup e (List.mem_cons_of_mem _ he)⟩

end Visits

def Untyped (scopes : Scopes) (d : Declaration) : Prop :=
  (scopes.global.get? d.name).map Symbol.type = some .unresolved

theorem untyped_globals_iff {p : Program} (hp : p.names.Nodup) {d : Declaration}
    (hd : d ∈ p.declarations) (resolved : List String) :
    Untyped ⟨p.globals resolved, []⟩ d ↔ d.name ∉ resolved := by
  have htype : ((Scopes.mk (p.globals resolved) []).global.get? d.name).map Symbol.type =
      some (if d.name ∈ resolved then d.signature else .unresolved) := type_after hp hd []
  rw [Untyped, htype]
  by_cases hmem : d.name ∈ resolved
  · rw [if_pos hmem]
    exact ⟨nofun, fun hnew => absurd hmem hnew⟩
  · rw [if_neg hmem]
    exact ⟨fun _ => hmem, fun _ => rfl⟩

/-- The scopes that checks of a program leave, one after the other, whether they succeed or fail. -/
def leftByChecks (p : Program) (declared : Scopes) : Nat → Scopes
  | 0 => declared
  | n + 1 => (leftBy (checkProgram p (.initial (leftByChecks p declared n)))).scopes

/-- A check of a program in the given scopes fails and has broken off a chain of calls: the check
gave these functions their types, and of all others that it gave one each is in order. -/
structure BrokenOff (p : Program) (scopes : Scopes) (chain : List Declaration) : Prop where
  fails : ∃ fault s, checkProgram p (.initial scopes) = .error fault s
  calls : chain.IsChain Calls
  given : ∀ d ∈ chain, d ∈ p.declarations ∧ Untyped scopes d ∧
    ¬ Untyped (leftBy (checkProgram p (.initial scopes))).scopes d
  others : ∀ d ∈ p.declarations, Untyped scopes d →
    ¬ Untyped (leftBy (checkProgram p (.initial scopes))).scopes d → d ∉ chain →
    WellTyped checkerRules p d

/-- A function in order, or one that some of the first checks of the program broke off. -/
def Accounted (p : Program) (declared : Scopes) (n : Nat) (d : Declaration) : Prop :=
  WellTyped checkerRules p d ∨
    ∃ k < n, ∃ chain, BrokenOff p (leftByChecks p declared k) chain ∧ d ∈ chain

section Checks

variable {p : Program} {declared : Scopes} {resolved : List String} {s : State}

theorem Accounted.succ {n : Nat} {d : Declaration} (h : Accounted p declared n d) :
    Accounted p declared (n + 1) d := by
  rcases h with htyped | ⟨k, hk, hchain⟩
  · exact .inl htyped
  · exact .inr ⟨k, Nat.lt_succ_of_lt hk, hchain⟩

/-- A check that succeeds leaves all functions with their types, and those that it gave them are in
order. -/
theorem checkProgram_ok (hp : p.names.Nodup)
    (h : checkProgram p (.initial ⟨p.globals resolved, []⟩) = .ok () s) :
    s.scopes = ⟨p.signatures, []⟩ ∧
      ∀ d ∈ p.declarations, d.name ∉ resolved → WellTyped checkerRules p d := by
  obtain ⟨after, hgrows, hs, hall⟩ := visitAll_sound hp p.declarations (fun _ hd => hd) rfl h
  have hsubset : p.names ⊆ after := by
    intro name hname
    obtain ⟨d, hd, rfl⟩ := List.mem_map.mp hname
    exact hall d hd
  exact ⟨by rw [hs, Program.globals_of_subset hsubset],
    fun d hd hnew => hgrows.typed d hd (hall d hd) hnew⟩

/-- A check that fails leaves the functions that it gave their types, and has broken off some of
them, unless two parameters of one function have one name. -/
theorem checkProgram_error (hp : p.names.Nodup) {fault : Diagnostic}
    (h : checkProgram p (.initial ⟨p.globals resolved, []⟩) = .error fault s) :
    ∃ after chain, s.scopes = ⟨p.globals after, []⟩ ∧
      BreaksOff p (fun _ => True) resolved after chain ∧
      BrokenOff p ⟨p.globals resolved, []⟩ chain ∧
      ((∀ d ∈ p.declarations, d.parameterNames.Nodup) → chain ≠ []) := by
  obtain ⟨after, chain, hbroken, hs, hchain⟩ :=
    visitAll_breaksOff hp p.declarations (fun _ hd => hd) rfl h
  have hleft : (leftBy (checkProgram p (.initial ⟨p.globals resolved, []⟩))).scopes =
      ⟨p.globals after, []⟩ := by
    rw [h]
    exact hs
  have hafter : ∀ d ∈ p.declarations,
      ¬ Untyped (leftBy (checkProgram p (.initial ⟨p.globals resolved, []⟩))).scopes d ↔
        d.name ∈ after := by
    intro d hd
    rw [hleft, untyped_globals_iff hp hd, not_not]
  refine ⟨after, chain, hs, hbroken, ⟨⟨fault, s, h⟩, hbroken.calls, fun d hd => ?_, ?_⟩, hchain⟩
  · obtain ⟨hdeclared, _, hmem, hnew⟩ := hbroken.added d hd
    exact ⟨hdeclared, (untyped_globals_iff hp hdeclared resolved).mpr hnew,
      (hafter d hdeclared).mpr hmem⟩
  · intro d hd hnew hmem
    exact hbroken.typed d hd ((hafter d hd).mp hmem) ((untyped_globals_iff hp hd resolved).mp hnew)

/-- After any number of checks, every function that has its type is in order or was broken off by
one of the checks. -/
theorem leftByChecks_resolved (hp : p.names.Nodup) (n : Nat) :
    ∃ resolved, leftByChecks p ⟨p.globals [], []⟩ n = ⟨p.globals resolved, []⟩ ∧
      ∀ d ∈ p.declarations, d.name ∈ resolved →
        d.parameterNames.Nodup ∧ Accounted p ⟨p.globals [], []⟩ n d := by
  induction n with
  | zero => exact ⟨[], rfl, fun d _ hmem => absurd hmem List.not_mem_nil⟩
  | succ n ih =>
    obtain ⟨resolved, hscopes, hresolved⟩ := ih
    have hearlier : ∀ d ∈ p.declarations, d.name ∈ resolved →
        d.parameterNames.Nodup ∧ Accounted p ⟨p.globals [], []⟩ (n + 1) d :=
      fun d hd hmem => ⟨(hresolved d hd hmem).1, (hresolved d hd hmem).2.succ⟩
    rw [leftByChecks, hscopes]
    cases hcheck : checkProgram p (.initial ⟨p.globals resolved, []⟩) with
    | ok _ s =>
      obtain ⟨hs, hall⟩ := checkProgram_ok hp hcheck
      refine ⟨p.names, by rw [← Program.signatures_eq_globals]; exact hs, fun d hd _ => ?_⟩
      by_cases hmem : d.name ∈ resolved
      · exact hearlier d hd hmem
      · exact ⟨(hall d hd hmem).distinct, .inl (hall d hd hmem)⟩
    | error fault s =>
      obtain ⟨after, chain, hs, hbroken, hoff, _⟩ := checkProgram_error hp hcheck
      refine ⟨after, hs, fun d hd hafter => ?_⟩
      by_cases hmem : d.name ∈ resolved
      · exact hearlier d hd hmem
      by_cases hchain : d ∈ chain
      · obtain ⟨_, hnodup, _⟩ := hbroken.added d hchain
        exact ⟨hnodup, .inr ⟨n, Nat.lt_succ_self n, chain, hscopes ▸ hoff, hchain⟩⟩
      · have htyped := hbroken.typed d hd hafter hmem hchain
        exact ⟨htyped.distinct, .inl htyped⟩

/-- A check that fails gives one more function its type, unless two parameters of one function have
one name. -/
theorem unresolved_lt_of_error (hp : p.names.Nodup)
    (hnodup : ∀ d ∈ p.declarations, d.parameterNames.Nodup) {fault : Diagnostic}
    (h : checkProgram p (.initial ⟨p.globals resolved, []⟩) = .error fault s) :
    ∃ after, s.scopes = ⟨p.globals after, []⟩ ∧ p.unresolved after < p.unresolved resolved := by
  obtain ⟨after, chain, hs, hbroken, _, hchain⟩ := checkProgram_error hp h
  obtain ⟨d, rest, rfl⟩ := List.exists_cons_of_ne_nil (hchain hnodup)
  obtain ⟨hd, _, hafter, hnew⟩ := hbroken.added d List.mem_cons_self
  have hsubset : d.name :: resolved ⊆ after := List.cons_subset.mpr ⟨hafter, hbroken.subset⟩
  have hle := Program.unresolved_le (p := p) hsubset
  have hlt := Program.unresolved_cons_lt hd hnew
  exact ⟨after, hs, by omega⟩

theorem exists_ok_of_unresolved (hp : p.names.Nodup)
    (hnodup : ∀ d ∈ p.declarations, d.parameterNames.Nodup) (n : Nat)
    (hscopes : leftByChecks p ⟨p.globals [], []⟩ n = ⟨p.globals resolved, []⟩) :
    ∃ k ≤ n + p.unresolved resolved, ∃ s,
      checkProgram p (.initial (leftByChecks p ⟨p.globals [], []⟩ k)) = .ok () s := by
  induction hm : p.unresolved resolved using Nat.strongRecOn generalizing n resolved with
  | ind m ih =>
    cases hcheck : checkProgram p (.initial ⟨p.globals resolved, []⟩) with
    | ok _ s => exact ⟨n, by omega, s, by rw [hscopes, hcheck]⟩
    | error fault s =>
      obtain ⟨after, hs, hlt⟩ := unresolved_lt_of_error hp hnodup hcheck
      have hnext : leftByChecks p ⟨p.globals [], []⟩ (n + 1) = ⟨p.globals after, []⟩ := by
        rw [leftByChecks, hscopes, hcheck]
        exact hs
      obtain ⟨k, hk, hok⟩ := ih (p.unresolved after) (hm ▸ hlt) (n + 1) hnext rfl
      exact ⟨k, by omega, hok⟩

end Checks

/-- Where no function has two parameters of one name, a check succeeds after at most as many others
as there are functions, whatever the bodies are. -/
theorem ok_after_checks {p : Program} {declared : Scopes} (h : Scopes.ofProgram p = .ok declared)
    (hnodup : ∀ d ∈ p.declarations, d.parameterNames.Nodup) :
    ∃ n ≤ p.declarations.length, ∃ s,
      checkProgram p (.initial (leftByChecks p declared n)) = .ok () s := by
  obtain ⟨hp, rfl⟩ := Scopes.ofProgram_eq_ok_iff.mp h
  obtain ⟨n, hn, hok⟩ := exists_ok_of_unresolved hp hnodup 0 rfl
  have hle := unresolved_le_length p []
  exact ⟨n, by omega, hok⟩

/-- A program is checked again and again in the scopes that the checks leave. Each of the checks
succeeds, or fails and breaks off a chain of calls. Where one succeeds, every function that had no
type before it is in order; so is every function of the program, but for those that an earlier check
broke off; and no function has two parameters of one name. -/
theorem ok_unless_brokenOff {p : Program} {declared : Scopes}
    (h : Scopes.ofProgram p = .ok declared) (n : Nat) :
    ((∃ s, checkProgram p (.initial (leftByChecks p declared n)) = .ok () s) ∨
      ∃ chain, BrokenOff p (leftByChecks p declared n) chain) ∧
    ∀ s, checkProgram p (.initial (leftByChecks p declared n)) = .ok () s →
      s.scopes = ⟨p.signatures, []⟩ ∧
      ∀ d ∈ p.declarations, d.parameterNames.Nodup ∧
        (Untyped (leftByChecks p declared n) d → WellTyped checkerRules p d) ∧
        (WellTyped checkerRules p d ∨
          ∃ k < n, ∃ chain, BrokenOff p (leftByChecks p declared k) chain ∧ d ∈ chain) := by
  obtain ⟨hp, rfl⟩ := Scopes.ofProgram_eq_ok_iff.mp h
  obtain ⟨resolved, hscopes, hresolved⟩ := leftByChecks_resolved hp n
  rw [hscopes]
  constructor
  · cases hcheck : checkProgram p (.initial ⟨p.globals resolved, []⟩) with
    | ok _ s => exact .inl ⟨s, rfl⟩
    | error fault s =>
      obtain ⟨_, chain, _, _, hoff, _⟩ := checkProgram_error hp hcheck
      exact .inr ⟨chain, hoff⟩
  · intro s hcheck
    obtain ⟨hs, hall⟩ := checkProgram_ok hp hcheck
    refine ⟨hs, fun d hd => ?_⟩
    have huntyped := untyped_globals_iff hp hd resolved
    by_cases hmem : d.name ∈ resolved
    · obtain ⟨hnodup, haccounted⟩ := hresolved d hd hmem
      exact ⟨hnodup, fun hnew => absurd hmem (huntyped.mp hnew), haccounted⟩
    · have htyped := hall d hd hmem
      exact ⟨htyped.distinct, fun _ => htyped, .inl htyped⟩

section Mistakes

/-- `main() -> bool = not "yes"`. -/
def negatedText : Declaration where
  number := 0
  name := "main"
  parameters := []
  returns := .primitive default .bool
  body := .inline (.unary default .not (.text default "yes"))
  span := default

/-- `second() -> real = true`. -/
def truthAsReal : Declaration where
  number := 1
  name := "second"
  parameters := []
  returns := .primitive default .real
  body := .inline (.boolean default true)
  span := default

theorem not_wellTyped_negatedText (p : Program) : ¬ WellTyped checkerRules p negatedText := by
  rintro ⟨_, _, typed, _⟩
  cases typed with
  | inline typed =>
    cases typed with
    | not typed => cases typed

theorem not_wellTyped_truthAsReal (p : Program) : ¬ WellTyped checkerRules p truthAsReal := by
  rintro ⟨_, _, typed, hagrees⟩
  cases typed with
  | inline typed =>
    cases typed
    cases hagrees

def mistakenProgram : Program := ⟨[negatedText, truthAsReal], default⟩

/-- The second check fails as the first one did, for it still visits the second function. -/
theorem ok_unless_brokenOff_mistakenProgram :
    ∃ declared, Scopes.ofProgram mistakenProgram = .ok declared ∧
      ∃ chain, BrokenOff mistakenProgram (leftByChecks mistakenProgram declared 1) chain := by
  have hdeclared : Scopes.ofProgram mistakenProgram = .ok ⟨mistakenProgram.globals [], []⟩ :=
    Scopes.ofProgram_eq_ok_iff.mpr ⟨by decide, rfl⟩
  refine ⟨_, hdeclared, ?_⟩
  obtain ⟨⟨s, hok⟩ | hoff, hchecked⟩ := ok_unless_brokenOff hdeclared 1
  · obtain ⟨_, hall⟩ := hchecked s hok
    obtain ⟨_, htyped, _⟩ := hall truthAsReal (List.mem_cons_of_mem _ List.mem_cons_self)
    exact absurd (htyped rfl) (not_wellTyped_truthAsReal _)
  · exact hoff

def negatedTextProgram : Program := ⟨[negatedText], default⟩

/-- The check fails, and succeeds in the scopes that the failure leaves. The function is not in
order, and its run ends with a fault that no program should have that passed the check. -/
theorem not_rejected_again_negatedTextProgram :
    ∃ declared fault s t, Scopes.ofProgram negatedTextProgram = .ok declared ∧
      checkProgram negatedTextProgram (.initial declared) = .error fault s ∧
      checkProgram negatedTextProgram (.initial s.scopes) = .ok () t ∧
      ¬ WellTyped checkerRules negatedTextProgram negatedText ∧
      ∃ d, negatedText.run .structural 1 t.scopes = .error (.fault d) ∧
        d.fault.isInternal = true := by
  have hdeclared : Scopes.ofProgram negatedTextProgram =
      .ok ⟨negatedTextProgram.globals [], []⟩ :=
    Scopes.ofProgram_eq_ok_iff.mpr ⟨by decide, rfl⟩
  exact ⟨_, _, _, _, hdeclared, rfl, rfl, not_wellTyped_negatedText _, _, rfl, rfl⟩

end Mistakes

end Typing

end Piecewise
