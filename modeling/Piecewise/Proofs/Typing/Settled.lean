import Piecewise.Proofs.Scope.Every
import Piecewise.Proofs.Ty.Order
import Piecewise.Proofs.Typing.Visits

/-!
# The types that the checker comes across

The checker changes its state in four ways only: it enters the frame of a function, declares a
parameter in it, writes down the type of a function, and leaves the frame again. Types as written
hold nothing that is unresolved. So the checker never writes down a function type with an unresolved
part, and it finds no such type for an expression, whichever functions have their type already.
-/

namespace Piecewise

namespace TypeExpr

mutual

/-- A type as written is known in full. -/
theorem isComplete_toTy : ∀ t : TypeExpr, t.toTy.isComplete = true
  | primitive _ name => by cases name <;> rfl
  | list _ element => isComplete_toTy element
  | function _ inputs output => by
    simp [toTy, Ty.isComplete, allComplete_toParameters inputs, isComplete_toTy output]

theorem allComplete_toParameters : ∀ ts : List TypeExpr,
    Ty.allComplete (toParameters ts) = true
  | [] => rfl
  | t :: rest => by
    simp [toParameters, Ty.allComplete, isComplete_toTy t, allComplete_toParameters rest]

end

theorem isSettled_toTy (t : TypeExpr) : t.toTy.isSettled = true :=
  Ty.isSettled_of_isComplete t.isComplete_toTy

end TypeExpr

theorem Declaration.isSettled_signature (d : Declaration) : d.signature.isSettled = true := by
  have hinputs : ∀ qs : List Param,
      Ty.allComplete (qs.map fun q => ⟨q.name, q.type.toTy⟩) = true := by
    intro qs
    induction qs with
    | nil => rfl
    | cons q qs ih => simp [Ty.allComplete, q.type.isComplete_toTy, ih]
  show (Ty.allComplete d.inputs && d.output.isComplete) = true
  rw [Declaration.inputs, hinputs, Declaration.output, TypeExpr.isComplete_toTy]
  rfl

/-- Nothing is unresolved in the function types of the symbols of a scope. -/
def Scope.Settled (s : Scope) : Prop := ∀ symbol ∈ s.symbols, symbol.type.isSettled = true

structure Scopes.Settled (s : Scopes) : Prop where
  global : s.global.Settled
  locals : ∀ scope ∈ s.locals, scope.Settled

namespace Scope

variable {s t : Scope}

theorem settled_empty : empty.Settled := every_empty

theorem Settled.modify (h : s.Settled) (name : String) {change : Symbol → Symbol}
    (hchange : ∀ symbol, (change symbol).type.isSettled = true) :
    (s.modify name change).Settled :=
  Every.modify (P := fun symbol => symbol.type.isSettled = true) h name
    fun symbol _ => hchange symbol

end Scope

/-- Settled scopes are those of which every symbol has a settled type. -/
theorem Scopes.settled_iff_every {s : Scopes} :
    s.Settled ↔ s.Every fun symbol => symbol.type.isSettled = true :=
  ⟨fun h => ⟨h.global, h.locals⟩, fun h => ⟨h.global, h.locals⟩⟩

theorem Scopes.Settled.resolve? {s : Scopes} (h : s.Settled) {name : String} {symbol : Symbol}
    (hfound : s.resolve? name = some symbol) : symbol.type.isSettled = true :=
  (settled_iff_every.mp h).resolve? hfound

theorem Scopes.Settled.declare {s t : Scopes} (h : s.Settled) {symbol : Symbol}
    (hsymbol : symbol.type.isSettled = true) {place : Position}
    (hstep : s.declare symbol place = .ok t) : t.Settled :=
  settled_iff_every.mpr ((settled_iff_every.mp h).declare hsymbol hstep)

namespace Typing

/-- The states that the checker builds from a state, whatever it is asked to check. -/
inductive Builds (s : State) : State → Prop
  | start : Builds s s
  | enter {t} (before : Builds s t) : Builds s { t with scopes := t.scopes.enterFrame.2 }
  | declare {t} (before : Builds s t) (q : Param) {scopes}
      (declared : t.scopes.declare (.parameter q.name q.type.toTy) q.span.start = .ok scopes) :
      Builds s { t with scopes }
  | record {t u} (before : Builds s t) (d : Declaration)
      (recorded : assign d d.signature t = .ok () u) : Builds s u
  | leave {t u} (before : Builds s t) (inside : Builds s u) :
      Builds s { u with scopes := u.scopes.leaveFrame t.scopes.locals }

/-- What is settled stays settled, whatever is checked. -/
theorem Builds.settled {s t : State} (h : Builds s t) (hs : s.scopes.Settled) :
    t.scopes.Settled := by
  induction h with
  | start => exact hs
  | enter _ ih =>
    exact ⟨ih.global, List.forall_mem_singleton.mpr Scope.settled_empty⟩
  | declare _ q declared ih => exact ih.declare q.type.isSettled_toTy declared
  | record _ d recorded ih =>
    cases recorded
    exact ⟨ih.global.modify d.name fun _ => d.isSettled_signature, ih.locals⟩
  | leave _ _ iht ihu => exact ⟨ihu.global, iht.locals⟩

/-- A step that leads from states that the checker builds to such states, however it ends, and
whose result is as described. -/
def Keeps {α : Type} (s : State) (step : Check α) (Q : α → Prop) : Prop :=
  ∀ t, Builds s t →
    match step t with
    | .ok a u => Builds s u ∧ Q a
    | .error _ u => Builds s u

namespace Keeps

variable {α β : Type} {s : State} {Q : α → Prop} {R : β → Prop}

theorem pure {a : α} (h : Q a) : Keeps s (Pure.pure a) Q := fun _ ht => ⟨ht, h⟩

theorem throw (d : Diagnostic) : Keeps s (MonadExcept.throw d : Check α) Q := fun _ ht => ht

theorem bind {step : Check α} {next : α → Check β} (h : Keeps s step Q)
    (k : ∀ a, Q a → Keeps s (next a) R) : Keeps s (step >>= next) R := by
  intro t ht
  have hstep := h t ht
  show match EStateM.bind step next t with
    | .ok b u => Builds s u ∧ R b
    | .error _ u => Builds s u
  unfold EStateM.bind
  cases hfirst : step t with
  | ok a u =>
    rw [hfirst] at hstep
    exact k a hstep.2 u hstep.1
  | error d u =>
    rw [hfirst] at hstep
    exact hstep

theorem lift {outcome : Except Diagnostic α} (h : ∀ a, outcome = .ok a → Q a) :
    Keeps s (Typing.lift outcome) Q := by
  cases outcome with
  | ok a => exact pure (h a rfl)
  | error d => exact throw d

/-- A comparison on which a step goes on or fails. -/
theorem ensure {c : Prop} [Decidable c] {a : α} {d : Diagnostic} (h : Q a) :
    Keeps s (if c then Pure.pure a else MonadExcept.throw d) Q := by
  split
  · exact pure h
  · exact throw d

/-- A step that looks at the state only. -/
theorem get {Q : State → Prop} (h : ∀ t, Builds s t → Q t) : Keeps s MonadState.get Q :=
  fun t ht => ⟨ht, h t ht⟩

theorem resolve (hs : s.scopes.Settled) (name : String) (place : Position) :
    Keeps s (Typing.resolve name place) fun symbol => symbol.type.isSettled = true := by
  refine .bind (.get fun t ht => ht) fun t ht => .lift fun symbol hfound => ?_
  unfold Scopes.resolve at hfound
  split at hfound
  · rename_i found hresolve
    cases hfound
    exact (ht.settled hs).resolve? hresolve
  · cases hfound

/-- A step in a frame of its own. -/
theorem inFrame {step : Check α} (h : Keeps s step Q) : Keeps s (Typing.inFrame step) Q := by
  intro t ht
  have hstep := h { t with scopes := t.scopes.enterFrame.2 } ht.enter
  unfold Typing.inFrame
  cases hend : step { t with scopes := t.scopes.enterFrame.2 } with
  | ok a u =>
    rw [hend] at hstep
    simp only [Scopes.enterFrame] at hend ⊢
    rw [hend]
    exact ⟨ht.leave hstep.1, hstep.2⟩
  | error d u =>
    rw [hend] at hstep
    simp only [Scopes.enterFrame] at hend ⊢
    rw [hend]
    exact ht.leave hstep

end Keeps

section Expressions

variable {s : State} {visit : Declaration → Check Unit}

theorem visitSymbol_keeps (hv : ∀ d, Keeps s (visit d) fun _ => True) (symbol : Symbol) :
    Keeps s (visitSymbol visit symbol) fun _ => True := by
  unfold visitSymbol
  split
  · exact .pure trivial
  · split
    · exact hv _
    · exact .pure trivial

theorem calleeType_keeps (hs : s.scopes.Settled) (hv : ∀ d, Keeps s (visit d) fun _ => True)
    (callee : String) (place : Position) :
    Keeps s (calleeType visit callee place) fun found => found.2.isSettled = true := by
  refine .bind (.resolve hs callee place) fun symbol _ => ?_
  refine .bind (visitSymbol_keeps hv symbol) fun _ _ => ?_
  refine .bind (.resolve hs callee place) fun found hfound => ?_
  split
  · rename_i inputs output htype
    rw [htype] at hfound
    have houtput : output.isComplete = true := by
      have hall : (Ty.allComplete inputs && output.isComplete) = true := hfound
      simp_all
    exact .pure (Ty.isSettled_of_isComplete houtput)
  · exact .throw _

theorem expecting_keeps {found : Check Ty} (h : Keeps s found fun a => a.isSettled = true)
    (expected : Ty) (e : Expr) : Keeps s (expecting expected e found) fun _ => True :=
  .bind h fun _ _ => .ensure trivial

theorem joinAt_settled {a b type : Ty} (ha : a.isSettled = true) (hb : b.isSettled = true)
    {place : Position} (h : joinAt a b place = .ok type) : type.isSettled = true := by
  unfold joinAt at h
  split at h
  · rename_i joined hjoined
    cases h
    exact Ty.isSettled_of_join ha hb hjoined
  · cases h

mutual

/-- The type that is found for an expression is settled. -/
theorem infer_keeps (hs : s.scopes.Settled) (hv : ∀ d, Keeps s (visit d) fun _ => True) :
    ∀ e : Expr, Keeps s (infer visit e) fun type => type.isSettled = true
  | .boolean _ _ | .number _ _ | .text _ _ => .pure rfl
  | .identifier span name =>
    .bind (.resolve hs name span.start) fun _ hsymbol => .pure hsymbol
  | .call span callee arguments => by
    refine .bind (calleeType_keeps hs hv callee span.start) fun found hfound => ?_
    refine .bind (inferAll_keeps hs hv arguments) fun received _ => ?_
    exact .bind (Q := fun _ => True) (.lift fun _ _ => trivial) fun _ _ => .pure hfound
  | .unary _ .not operand =>
    .bind (expecting_keeps (infer_keeps hs hv operand) _ operand) fun _ _ => .pure rfl
  | .unary _ .negate operand =>
    .bind (expecting_keeps (infer_keeps hs hv operand) _ operand) fun _ _ => .pure rfl
  | .binary _ op left right => by
    have hleft := infer_keeps hs hv left
    have hright := infer_keeps hs hv right
    cases op with
    | or | and | arithmetic _ | compare _ =>
      refine .bind (expecting_keeps hleft _ left) fun _ _ => ?_
      exact .bind (expecting_keeps hright _ right) fun _ _ => .pure rfl
    | equals => exact .bind hleft fun a _ => .bind hright fun b _ => .ensure rfl
    | concat =>
      refine .bind hleft fun a ha => ?_
      split
      · exact .bind (Q := fun _ => False) (.throw _) fun _ h => h.elim
      · refine .bind hright fun b hb => ?_
        split
        · rename_i type hjoined
          exact .pure (Ty.isSettled_of_join ha hb (Ty.joinLists_eq_some hjoined).2.2)
        · exact .throw _
  | .conditional _ condition whenTrue whenFalse => by
    refine .bind (expecting_keeps (infer_keeps hs hv condition) _ condition) fun _ _ => ?_
    refine .bind (infer_keeps hs hv whenTrue) fun a ha => ?_
    refine .bind (infer_keeps hs hv whenFalse) fun b hb => ?_
    exact .lift fun type hjoined => joinAt_settled ha hb hjoined
  | .list _ [] => .pure rfl
  | .list _ (first :: rest) => by
    refine .bind (infer_keeps hs hv first) fun type htype => ?_
    exact .bind (inferJoined_keeps hs hv rest htype) fun _ hjoined => .pure hjoined

theorem inferAll_keeps (hs : s.scopes.Settled) (hv : ∀ d, Keeps s (visit d) fun _ => True) :
    ∀ es : List Expr,
    Keeps s (inferAll visit es) fun found => ∀ a ∈ found.map Prod.fst, a.isSettled = true
  | [] => .pure nofun
  | e :: rest => by
    refine .bind (infer_keeps hs hv e) fun type htype => ?_
    refine .bind (inferAll_keeps hs hv rest) fun found hfound => .pure ?_
    exact List.forall_mem_cons.mpr ⟨htype, hfound⟩

theorem inferJoined_keeps (hs : s.scopes.Settled) (hv : ∀ d, Keeps s (visit d) fun _ => True) :
    ∀ (es : List Expr) {type : Ty}, type.isSettled = true →
    Keeps s (inferJoined visit type es) fun joined => joined.isSettled = true
  | [], _, htype => .pure htype
  | e :: rest, _, htype => by
    refine .bind (infer_keeps hs hv e) fun received hreceived => ?_
    refine .bind (.lift fun joined hjoined => joinAt_settled htype hreceived hjoined) ?_
    exact fun _ hjoined => inferJoined_keeps hs hv rest hjoined

end

theorem inferBranches_keeps (hs : s.scopes.Settled) (hv : ∀ d, Keeps s (visit d) fun _ => True)
    (branches : List Branch) :
    Keeps s (inferBranches visit branches) fun found =>
      ∀ a ∈ found.map Prod.fst, a.isSettled = true := by
  induction branches with
  | nil => exact .pure nofun
  | cons branch rest ih =>
    refine .bind (expecting_keeps (infer_keeps hs hv branch.guard) _ branch.guard) fun _ _ => ?_
    refine .bind (infer_keeps hs hv branch.action) fun type htype => ?_
    exact .bind ih fun found hfound => .pure (List.forall_mem_cons.mpr ⟨htype, hfound⟩)

theorem joinAll_settled {found : List (Ty × Position)} {type last : Ty}
    (htype : type.isSettled = true) (hfound : ∀ a ∈ found.map Prod.fst, a.isSettled = true)
    (h : joinAll type found = .ok last) : last.isSettled = true := by
  induction found generalizing type with
  | nil =>
    cases h
    exact htype
  | cons next rest ih =>
    obtain ⟨hnext, hrest⟩ := List.forall_mem_cons.mp hfound
    rw [joinAll] at h
    cases hjoined : joinAt type next.1 next.2 with
    | error d => rw [hjoined] at h; cases h
    | ok joined =>
      rw [hjoined] at h
      exact ih (joinAt_settled htype hnext hjoined) hrest h

theorem inferBody_keeps (hs : s.scopes.Settled) (hv : ∀ d, Keeps s (visit d) fun _ => True)
    (body : Body) : Keeps s (inferBody visit body) fun type => type.isSettled = true := by
  cases body with
  | inline value => exact infer_keeps hs hv value
  | piecewise span branches otherwise =>
    refine .bind (inferBranches_keeps hs hv branches) fun guarded hguarded => ?_
    refine .bind (infer_keeps hs hv otherwise) fun last hlast => ?_
    cases guarded with
    | nil => exact .pure hlast
    | cons first rest =>
      obtain ⟨hfirst, hrest⟩ := List.forall_mem_cons.mp hguarded
      refine .lift fun type hjoined => joinAll_settled hfirst ?_ hjoined
      intro a ha
      rw [List.map_append, List.mem_append] at ha
      rcases ha with ha | ha
      · exact hrest a ha
      · rwa [List.mem_singleton.mp ha]

end Expressions

section Visits

variable {s : State}

theorem declareParameters_keeps (qs : List Param) :
    Keeps s (declareParameters qs) fun _ => True := by
  induction qs with
  | nil => exact .pure trivial
  | cons q qs ih =>
    intro t ht
    have hstep : declareParameters (q :: qs) t =
        EStateM.bind (lift (t.scopes.declare (.parameter q.name q.type.toTy) q.span.start))
          (fun scopes _ => declareParameters qs { t with scopes }) t := rfl
    rw [hstep]
    cases hdeclared : t.scopes.declare (.parameter q.name q.type.toTy) q.span.start with
    | error d => exact ht
    | ok scopes => exact ih { t with scopes } (ht.declare q hdeclared)

theorem assign_keeps (d : Declaration) : Keeps s (assign d d.signature) fun _ => True :=
  fun _ ht => ⟨ht.record d rfl, trivial⟩

theorem unlessResolved_keeps (d : Declaration) {visit : Check Unit}
    (h : Keeps s visit fun _ => True) : Keeps s (unlessResolved d visit) fun _ => True := by
  refine .bind (.get fun _ _ => trivial) fun t _ => ?_
  split
  · exact .throw _
  · split
    · exact .pure trivial
    · exact h

theorem visitBody_keeps (hs : s.scopes.Settled) {visit : Declaration → Check Unit}
    (hv : ∀ d, Keeps s (visit d) fun _ => True) (d : Declaration) :
    Keeps s (inFrame (visitBody visit d)) fun _ => True := by
  rw [inFrame_visitBody]
  refine .inFrame (.bind (declareParameters_keeps d.parameters) fun _ _ => ?_)
  refine .bind (assign_keeps d) fun _ _ => ?_
  exact .bind (inferBody_keeps hs hv d.body) fun _ _ => .ensure trivial

/-- Visits lead from states that the checker builds to such states. -/
theorem visitWithin_keeps (hs : s.scopes.Settled) (n : Nat) :
    ∀ d, Keeps s (visitWithin n d) fun _ => True := by
  induction n with
  | zero => exact fun d => unlessResolved_keeps d (.pure trivial)
  | succ n ih => exact fun d => unlessResolved_keeps d (visitBody_keeps hs ih d)

end Visits

/-- Where a program has been declared nothing is settled yet but that nothing has a type. -/
theorem settled_of_ofProgram {p : Program} {declared : Scopes}
    (h : Scopes.ofProgram p = .ok declared) : declared.Settled := by
  obtain ⟨_, rfl⟩ := Scopes.ofProgram_eq_ok_iff.mp h
  refine ⟨?_, nofun⟩
  intro symbol hsymbol
  obtain ⟨d, _, rfl⟩ := List.mem_map.mp hsymbol
  rfl

end Typing

end Piecewise
