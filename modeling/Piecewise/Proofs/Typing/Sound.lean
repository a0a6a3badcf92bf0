import Piecewise.Proofs.Typing.Checks
import Piecewise.Proofs.Typing.Visits
import Piecewise.Run.Program

/-!
# What the checker accepts is typed

The checker visits functions in the middle of one another, so a step of it is described by the
functions that have their type before and after: a step that succeeds only adds functions whose
own bodies are in order. The functions that are being visited around the step have their type
already and are answered for by the visits that wrote it down.
-/

namespace Piecewise

namespace Typing

/-- More functions have their type, and those that were added are in order. -/
structure Grows (p : Program) (before after : List String) : Prop where
  subset : before ⊆ after
  typed : ∀ d ∈ p.declarations, d.name ∈ after → d.name ∉ before → WellTyped checkerRules p d

namespace Grows

variable {p : Program} {first second third : List String}

theorem refl (p : Program) (names : List String) : Grows p names names :=
  ⟨fun _ h => h, fun _ _ h hnot => absurd h hnot⟩

theorem trans (h : Grows p first second) (k : Grows p second third) : Grows p first third := by
  refine ⟨fun _ hmem => k.subset (h.subset hmem), fun d hd hthird hfirst => ?_⟩
  by_cases hsecond : d.name ∈ second
  · exact h.typed d hd hsecond hfirst
  · exact k.typed d hd hthird hsecond

/-- The visit of a function adds the function itself, and then what its body needs. -/
theorem of_visit (hp : p.names.Nodup) {d : Declaration} (hd : d ∈ p.declarations)
    (ht : WellTyped checkerRules p d) (h : Grows p (d.name :: first) second) :
    Grows p first second := by
  refine ⟨fun _ hmem => h.subset (List.mem_cons_of_mem _ hmem), fun e he hsecond hfirst => ?_⟩
  by_cases hname : e.name = d.name
  · rwa [List.inj_on_of_nodup_map hp he hd hname]
  · exact h.typed e he hsecond (by simp [hname, hfirst])

end Grows

/-- A step of the checker in the given local scopes that, where it succeeds, has a result as
described and adds only functions in order. -/
def Sound {α : Type} (p : Program) (locals : List Scope) (step : Check α) (Q : α → Prop) : Prop :=
  ∀ resolved s a t, s.scopes = ⟨p.globals resolved, locals⟩ → step s = .ok a t →
    ∃ after, Grows p resolved after ∧ t.scopes = ⟨p.globals after, locals⟩ ∧ Q a

namespace Sound

variable {α β : Type} {p : Program} {locals : List Scope} {Q : α → Prop} {R : β → Prop}

theorem pure {a : α} (h : Q a) : Sound p locals (Pure.pure a) Q := by
  intro resolved s b t hs hstep
  cases hstep
  exact ⟨resolved, .refl p resolved, hs, h⟩

theorem bind {step : Check α} {next : α → Check β} (h : Sound p locals step Q)
    (k : ∀ a, Q a → Sound p locals (next a) R) : Sound p locals (step >>= next) R := by
  intro resolved s b t hs hstep
  obtain ⟨a, u, hfirst, hnext⟩ := bind_eq_ok_iff.mp hstep
  obtain ⟨middle, hgrows, hu, ha⟩ := h resolved s a u hs hfirst
  obtain ⟨after, hgrows', ht, hb⟩ := k a ha middle u b t hu hnext
  exact ⟨after, hgrows.trans hgrows', ht, hb⟩

theorem weaken {step : Check α} {Q' : α → Prop} (h : Sound p locals step Q)
    (k : ∀ a, Q a → Q' a) : Sound p locals step Q' := by
  intro resolved s a t hs hstep
  obtain ⟨after, hgrows, ht, ha⟩ := h resolved s a t hs hstep
  exact ⟨after, hgrows, ht, k a ha⟩

theorem throw {d : Diagnostic} : Sound p locals (MonadExcept.throw d : Check α) Q := by
  intro resolved s a t _ hstep
  cases hstep

theorem lift {outcome : Except Diagnostic α} (h : ∀ a, outcome = .ok a → Q a) :
    Sound p locals (Typing.lift outcome) Q := by
  cases outcome with
  | error d => exact throw
  | ok a => exact pure (h a rfl)

/-- A comparison on which a step goes on or fails. -/
theorem ensure {c : Prop} [Decidable c] {a : α} {d : Diagnostic} (h : c → Q a) :
    Sound p locals (if c then Pure.pure a else MonadExcept.throw d) Q := by
  split
  · rename_i hc
    exact pure (h hc)
  · exact throw

theorem resolve {d : Declaration} {name : String} {place : Position} :
    Sound p [d.frame] (Typing.resolve name place) fun symbol =>
      ∃ meaning resolved, (environment p d).lookup name = some meaning ∧
        symbol = meaning.symbol resolved name := by
  intro resolved s symbol t hs hstep
  cases hlookup : (environment p d).lookup name with
  | none =>
    have hfail : Typing.resolve name place s =
        Typing.lift (s.scopes.resolve name place) s := rfl
    rw [hfail, hs, Scopes.resolve, resolve?_globals, hlookup] at hstep
    cases hstep
  | some meaning =>
    rw [resolve_of_lookup hs hlookup] at hstep
    cases hstep
    exact ⟨resolved, .refl p resolved, hs, meaning, resolved, rfl, rfl⟩

end Sound

def SoundVisits (p : Program) (locals : List Scope) (visit : Declaration → Check Unit) : Prop :=
  ∀ f ∈ p.declarations, Sound p locals (visit f) fun _ => True

section Expressions

variable {p : Program} {d : Declaration} {visit : Declaration → Check Unit}

theorem visitSymbol_sound (hv : SoundVisits p [d.frame] visit) {name : String}
    {meaning : Meaning} (hlookup : (environment p d).lookup name = some meaning)
    (resolved : List String) :
    Sound p [d.frame] (visitSymbol visit (meaning.symbol resolved name)) fun _ => True := by
  unfold visitSymbol
  split
  · exact .pure trivial
  · cases meaning with
    | parameter type => exact .pure trivial
    | function f =>
      rw [Meaning.declaration?_symbol]
      exact hv f (mem_of_lookup hlookup).1

/-- A callee has the type of what its name stands for. -/
theorem calleeType_sound (hv : SoundVisits p [d.frame] visit) (callee : String)
    (place : Position) :
    Sound p [d.frame] (calleeType visit callee place) fun found =>
      ∃ meaning, (environment p d).lookup callee = some meaning ∧
        meaning.type = .function found.1 found.2 := by
  unfold calleeType
  refine .bind .resolve ?_
  rintro _ ⟨meaning, resolved, hlookup, rfl⟩
  refine .bind (visitSymbol_sound hv hlookup resolved) fun _ _ => ?_
  refine .bind .resolve ?_
  rintro _ ⟨meaning', resolved', hlookup', rfl⟩
  split
  · rename_i inputs output htype
    refine .pure ⟨meaning', hlookup', ?_⟩
    cases meaning' with
    | parameter type => exact htype
    | function f =>
      rw [Meaning.type_symbol] at htype
      split at htype
      · exact htype
      · cases htype
  · exact .throw

/-- An expression of a type that is told by its kind. -/
theorem expecting_sound {expected : Ty}
    (hexact : ∀ a : Ty, a.sameKind expected = true → a = expected) {e : Expr} {found : Check Ty}
    (h : Sound p [d.frame] found (HasType checkerRules (environment p d) e)) :
    Sound p [d.frame] (expecting expected e found) fun _ =>
      HasType checkerRules (environment p d) e expected := by
  refine .bind h fun received hreceived => .ensure fun hkind => ?_
  rwa [hexact received hkind] at hreceived

theorem boolean_sound {e : Expr} {found : Check Ty}
    (h : Sound p [d.frame] found (HasType checkerRules (environment p d) e)) :
    Sound p [d.frame] (expecting .boolean e found) fun _ =>
      HasType checkerRules (environment p d) e .boolean :=
  expecting_sound (fun _ hkind => Ty.kind_boolean_iff.mp (Ty.sameKind_iff.mp hkind)) h

theorem real_sound {e : Expr} {found : Check Ty}
    (h : Sound p [d.frame] found (HasType checkerRules (environment p d) e)) :
    Sound p [d.frame] (expecting .real e found) fun _ =>
      HasType checkerRules (environment p d) e .real :=
  expecting_sound (fun _ hkind => Ty.kind_real_iff.mp (Ty.sameKind_iff.mp hkind)) h

mutual

/-- The type that the checker finds is one by the rules. -/
theorem infer_sound (hv : SoundVisits p [d.frame] visit) : ∀ e : Expr,
    Sound p [d.frame] (infer visit e) (HasType checkerRules (environment p d) e)
  | .boolean _ _ => .pure .boolean
  | .number _ _ => .pure .number
  | .text _ _ => .pure .text
  | .identifier _ _ => by
    refine .bind .resolve ?_
    rintro _ ⟨meaning, resolved, hlookup, rfl⟩
    refine .pure ?_
    cases meaning with
    | parameter type => exact .parameter hlookup
    | function f =>
      refine .function trivial hlookup ?_
      rw [Meaning.type_symbol]
      split
      · exact Or.inl rfl
      · exact Or.inr rfl
  | .call span callee arguments => by
    refine .bind (calleeType_sound hv callee span.start) ?_
    rintro ⟨inputs, output⟩ ⟨meaning, hlookup, htype⟩
    refine .bind (inferAll_sound hv arguments) fun received hreceived => ?_
    refine .bind (.lift fun _ hok => checkArguments_eq_ok_iff.mp hok) fun _ haccepted => ?_
    exact .pure (.call hlookup htype hreceived haccepted)
  | .unary _ .not operand =>
    .bind (boolean_sound (infer_sound hv operand)) fun _ h => .pure (.not h)
  | .unary _ .negate operand =>
    .bind (real_sound (infer_sound hv operand)) fun _ h => .pure (.negate h)
  | .binary _ op left right => by
    have hleft := infer_sound hv left
    have hright := infer_sound hv right
    cases op with
    | or =>
      refine .bind (boolean_sound hleft) fun _ h => ?_
      exact .bind (boolean_sound hright) fun _ k => .pure (.or h k)
    | and =>
      refine .bind (boolean_sound hleft) fun _ h => ?_
      exact .bind (boolean_sound hright) fun _ k => .pure (.and h k)
    | arithmetic a =>
      refine .bind (real_sound hleft) fun _ h => ?_
      exact .bind (real_sound hright) fun _ k => .pure (.arithmetic h k)
    | compare c =>
      refine .bind (real_sound hleft) fun _ h => ?_
      exact .bind (real_sound hright) fun _ k => .pure (.compare h k)
    | equals =>
      refine .bind hleft fun a h => .bind hright fun b k => ?_
      exact .ensure fun hkind => .equals h k hkind
    | concat =>
      refine .bind hleft fun a h => ?_
      split
      · exact .bind (Q := fun _ => False) .throw fun _ h => h.elim
      · refine .bind hright fun b k => ?_
        cases hjoined : a.joinLists b with
        | none => exact .throw
        | some type => exact .pure (.concat h k hjoined)
  | .conditional _ condition whenTrue whenFalse => by
    refine .bind (boolean_sound (infer_sound hv condition)) fun _ hguard => ?_
    refine .bind (infer_sound hv whenTrue) fun a h => ?_
    refine .bind (infer_sound hv whenFalse) fun b k => ?_
    exact .lift fun type hok => .conditional hguard h k (joinAt_eq_ok_iff.mp hok)
  | .list _ [] => .pure .empty
  | .list _ (first :: rest) => by
    refine .bind (infer_sound hv first) fun type h => ?_
    refine .bind (inferJoined_sound hv rest type) ?_
    rintro joined ⟨types, hrest, hjoined⟩
    exact .pure (.list (.cons h hrest) hjoined)

theorem inferAll_sound (hv : SoundVisits p [d.frame] visit) : ∀ es : List Expr,
    Sound p [d.frame] (inferAll visit es) fun found =>
      HaveTypes checkerRules (environment p d) es (found.map Prod.fst)
  | [] => .pure .nil
  | e :: rest => by
    refine .bind (infer_sound hv e) fun type h => ?_
    exact .bind (inferAll_sound hv rest) fun found k => .pure (.cons h k)

theorem inferJoined_sound (hv : SoundVisits p [d.frame] visit) : ∀ (es : List Expr) (type : Ty),
    Sound p [d.frame] (inferJoined visit type es) fun joined =>
      ∃ types, HaveTypes checkerRules (environment p d) es types ∧
        types.foldlM Ty.join type = some joined
  | [], _ => .pure ⟨[], .nil, rfl⟩
  | e :: rest, type => by
    refine .bind (infer_sound hv e) fun received h => ?_
    refine .bind (.lift fun _ hok => joinAt_eq_ok_iff.mp hok) fun joined hjoined => ?_
    refine (inferJoined_sound hv rest joined).weaken ?_
    rintro last ⟨types, hrest, hlast⟩
    exact ⟨received :: types, .cons h hrest, by simpa [hjoined] using hlast⟩

end

theorem inferBranches_sound (hv : SoundVisits p [d.frame] visit) : ∀ branches : List Branch,
    Sound p [d.frame] (inferBranches visit branches) fun found =>
      BranchesHaveTypes checkerRules (environment p d) branches (found.map Prod.fst)
  | [] => .pure .nil
  | branch :: rest => by
    refine .bind (boolean_sound (infer_sound hv branch.guard)) fun _ hguard => ?_
    refine .bind (infer_sound hv branch.action) fun type h => ?_
    exact .bind (inferBranches_sound hv rest) fun found k => .pure (.cons hguard h k)

theorem inferBody_sound (hv : SoundVisits p [d.frame] visit) : ∀ body : Body,
    Sound p [d.frame] (inferBody visit body) (BodyHasType checkerRules (environment p d) body)
  | .inline value => (infer_sound hv value).weaken fun _ h => .inline h
  | .piecewise _ branches otherwise => by
    refine .bind (inferBranches_sound hv branches) fun guarded hguarded => ?_
    refine .bind (infer_sound hv otherwise) fun last hlast => ?_
    cases guarded with
    | nil => exact .pure (.piecewise hguarded hlast rfl)
    | cons first rest =>
      obtain ⟨type, place⟩ := first
      refine .lift fun joined hok => .piecewise hguarded hlast ?_
      simpa [Ty.joinMany] using joinAll_eq_ok_iff.mp hok

end Expressions

section Visits

variable {p : Program}

theorem visitBody_sound (hp : p.names.Nodup) {d : Declaration} (hd : d ∈ p.declarations)
    {visit : Declaration → Check Unit} (hv : SoundVisits p [d.frame] visit)
    {resolved : List String} {s t : State} (hs : s.scopes = ⟨p.globals resolved, [.empty]⟩)
    (h : visitBody visit d s = .ok () t) :
    ∃ after, Grows p resolved after ∧ d.name ∈ after ∧
      t.scopes = ⟨p.globals after, [d.frame]⟩ := by
  obtain ⟨hnodup, type, hbody, hagrees⟩ := (visitBody_eq_ok_iff hp hd hs visit).mp h
  obtain ⟨after, hgrows, ht, htyped⟩ :=
    inferBody_sound hv d.body (d.name :: resolved) _ type t rfl hbody
  exact ⟨after, hgrows.of_visit hp hd ⟨hnodup, type, htyped, hagrees⟩,
    hgrows.subset List.mem_cons_self, ht⟩

/-- A visit adds only functions in order. The function itself is among those that have their type
in the end, unless the bound was spent. -/
theorem visitWithin_sound (hp : p.names.Nodup) : ∀ (n : Nat) {d : Declaration},
    d ∈ p.declarations → ∀ {locals : List Scope} {resolved : List String} {s t : State},
    s.scopes = ⟨p.globals resolved, locals⟩ → visitWithin n d s = .ok () t →
    ∃ after, Grows p resolved after ∧ t.scopes = ⟨p.globals after, locals⟩ ∧
      (n ≠ 0 → d.name ∈ after) := by
  intro n
  induction n with
  | zero =>
    intro d hd locals resolved s t hs h
    by_cases hmem : d.name ∈ resolved
    · rw [visitWithin, unlessResolved_of_mem hp hd hs hmem] at h
      cases h
      exact ⟨resolved, .refl p resolved, hs, fun hn => absurd rfl hn⟩
    · rw [visitWithin, unlessResolved_of_not_mem hp hd hs hmem] at h
      cases h
      exact ⟨resolved, .refl p resolved, hs, fun hn => absurd rfl hn⟩
  | succ n ih =>
    intro d hd locals resolved s t hs h
    by_cases hmem : d.name ∈ resolved
    · rw [visitWithin, unlessResolved_of_mem hp hd hs hmem] at h
      cases h
      exact ⟨resolved, .refl p resolved, hs, fun _ => hmem⟩
    · rw [visitWithin, unlessResolved_of_not_mem hp hd hs hmem, inFrame_eq_ok_iff hs] at h
      obtain ⟨u, hbody, rfl⟩ := h
      have hv : SoundVisits p [d.frame] (visitWithin n) := by
        intro f hf resolved s _ t hs h
        obtain ⟨after, hgrows, ht, _⟩ := ih hf hs h
        exact ⟨after, hgrows, ht, trivial⟩
      obtain ⟨after, hgrows, hafter, hu⟩ := visitBody_sound hp hd hv rfl hbody
      exact ⟨after, hgrows, by rw [hu], fun _ => hafter⟩

theorem soundVisits_visitWithin (hp : p.names.Nodup) (locals : List Scope) (n : Nat) :
    SoundVisits p locals (visitWithin n) := by
  intro f hf resolved s _ t hs h
  obtain ⟨after, hgrows, ht, _⟩ := visitWithin_sound hp n hf hs h
  exact ⟨after, hgrows, ht, trivial⟩

/-- The bound counts the function itself if it has no type yet, so it is not spent. -/
theorem visit_sound (hp : p.names.Nodup) {d : Declaration} (hd : d ∈ p.declarations)
    {locals : List Scope} {resolved : List String} {s t : State}
    (hs : s.scopes = ⟨p.globals resolved, locals⟩) (h : visit d s = .ok () t) :
    ∃ after, Grows p resolved after ∧ t.scopes = ⟨p.globals after, locals⟩ ∧ d.name ∈ after := by
  change visitWithin s.scopes.pending d s = .ok () t at h
  obtain ⟨after, hgrows, ht, hmem⟩ := visitWithin_sound hp _ hd hs h
  refine ⟨after, hgrows, ht, ?_⟩
  by_cases hknown : d.name ∈ resolved
  · exact hgrows.subset hknown
  · refine hmem ?_
    rw [hs, Program.pending_globals]
    have hlt := Program.unresolved_cons_lt hd hknown
    omega

theorem visitAll_sound (hp : p.names.Nodup) : ∀ (ds : List Declaration),
    (∀ d ∈ ds, d ∈ p.declarations) → ∀ {resolved : List String} {s t : State},
    s.scopes = ⟨p.globals resolved, []⟩ → visitAll ds s = .ok () t →
    ∃ after, Grows p resolved after ∧ t.scopes = ⟨p.globals after, []⟩ ∧
      ∀ d ∈ ds, d.name ∈ after := by
  intro ds
  induction ds with
  | nil =>
    intro _ resolved s t hs h
    cases h
    exact ⟨resolved, .refl p resolved, hs, fun d hd => by cases hd⟩
  | cons d ds ih =>
    intro hds resolved s t hs h
    change EStateM.bind (visit d) (fun _ => visitAll ds) s = .ok () t at h
    unfold EStateM.bind at h
    cases hfirst : visit d s with
    | error fault u => rw [hfirst] at h; cases h
    | ok _ u =>
      rw [hfirst] at h
      obtain ⟨middle, hgrows, hu, hmem⟩ := visit_sound hp (hds d List.mem_cons_self) hs hfirst
      obtain ⟨after, hgrows', ht, hall⟩ :=
        ih (fun e he => hds e (List.mem_cons_of_mem _ he)) hu h
      refine ⟨after, hgrows.trans hgrows', ht, fun e he => ?_⟩
      rcases List.mem_cons.mp he with rfl | he
      · exact hgrows'.subset hmem
      · exact hall e he

end Visits

end Typing

/-- A program that can be declared and then checked, and the scopes that the checker leaves. -/
def Program.Accepted (p : Program) (checked : Scopes) : Prop :=
  ∃ declared, Scopes.ofProgram p = .ok declared ∧ p.check declared = .ok checked

namespace Typing

/-- The functions of an accepted program have different names and are in order, and each has the
type that it is declared with. -/
theorem typed_of_accepted {p : Program} {checked : Scopes} (h : p.Accepted checked) :
    p.names.Nodup ∧ checked = ⟨p.signatures, []⟩ ∧
      ∀ d ∈ p.declarations, WellTyped checkerRules p d := by
  obtain ⟨declared, hdeclared, hchecked⟩ := h
  obtain ⟨hp, rfl⟩ := Scopes.ofProgram_eq_ok_iff.mp hdeclared
  unfold Program.check at hchecked
  split at hchecked
  · rename_i s hok
    cases hchecked
    obtain ⟨after, hgrows, ht, hall⟩ := visitAll_sound hp p.declarations (fun _ hd => hd) rfl hok
    have hsubset : p.names ⊆ after := by
      intro name hname
      obtain ⟨d, hd, rfl⟩ := List.mem_map.mp hname
      exact hall d hd
    refine ⟨hp, by rw [ht, Program.globals_of_subset hsubset], fun d hd => ?_⟩
    exact hgrows.typed d hd (hall d hd) List.not_mem_nil
  · cases hchecked

/-- A program is accepted exactly where neither its declaration nor its check fails. -/
theorem accepted_iff {p : Program} :
    p.Accepted ⟨p.signatures, []⟩ ↔ ((Scopes.ofProgram p).bind p.check).isOk = true := by
  constructor
  · rintro ⟨declared, hdeclared, hchecked⟩
    rw [hdeclared]
    change (p.check declared).isOk = true
    rw [hchecked]
    rfl
  · intro h
    cases hdeclared : Scopes.ofProgram p with
    | error fault => rw [hdeclared] at h; cases h
    | ok declared =>
      rw [hdeclared] at h
      change (p.check declared).isOk = true at h
      cases hchecked : p.check declared with
      | error fault => rw [hchecked] at h; cases h
      | ok checked =>
        have haccepted : p.Accepted checked := ⟨declared, hdeclared, hchecked⟩
        rw [(typed_of_accepted haccepted).2.1] at haccepted
        exact haccepted

instance (p : Program) : Decidable (p.Accepted ⟨p.signatures, []⟩) :=
  decidable_of_iff _ accepted_iff.symm

end Typing

end Piecewise
