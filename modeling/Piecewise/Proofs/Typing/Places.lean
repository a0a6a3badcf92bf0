import Piecewise.Proofs.Scope.Places
import Piecewise.Typing.Program

/-!
# Where the checker points

Every fault of the checker points at the start of a node: of an expression, a parameter, a
declaration or a body. The nodes are those of the declarations to check and of those that are in
scope, and the checker brings no other declaration into scope.
-/

namespace Piecewise

open Piecewise.Span

variable {S : Position → Prop}

namespace Typing

/-- From scopes in which declarations have their nodes at places of the given sort, a step leaves
such scopes and has a result that is as asked for, or it fails at such a place. -/
abbrev Located {α : Type} (S : Position → Prop) (step : Check α) (Q : α → Prop) : Prop :=
  Upholds (fun s => s.scopes.Every (Symbol.HoldsAt S)) (·.PointsAt S) step Q

namespace Located

variable {α β : Type} {Q : α → Prop}

theorem fail {fault : Fault} {place : Position} (h : S place) :
    Located S (MonadExcept.throw (fault.at place)) Q := Upholds.throw ⟨place, rfl, h⟩

theorem ensure {c : Prop} [Decidable c] {a : α} {fault : Fault} {place : Position} (h : S place)
    (ha : Q a) : Located S (if c then Pure.pure a else MonadExcept.throw (fault.at place)) Q :=
  Upholds.ensure ha ⟨place, rfl, h⟩

theorem lift {outcome : Except Diagnostic α} (h : Gives (·.PointsAt S) outcome Q) :
    Located S (Typing.lift outcome) Q := by
  cases outcome with
  | ok a => exact Upholds.pure h
  | error d => exact Upholds.throw h

theorem resolve (name : String) {place : Position} (hplace : S place) :
    Located S (Typing.resolve name place) (Symbol.HoldsAt S) :=
  Upholds.get.bind fun _ hs => lift (Scopes.resolve_gives hs name hplace)

/-- A step in a frame of its own. -/
theorem inFrame {step : Check α} (h : Located S step Q) : Located S (Typing.inFrame step) Q := by
  intro s hs
  have hstep := h { s with scopes := s.scopes.enterFrame.2 } hs.enterFrame
  unfold Yields Typing.inFrame at *
  cases hend : step { s with scopes := s.scopes.enterFrame.2 } with
  | ok a t =>
    rw [hend] at hstep
    simp only [Scopes.enterFrame] at hend ⊢
    rw [hend]
    exact ⟨hstep.1.leaveFrame hs, hstep.2⟩
  | error d t =>
    rw [hend] at hstep
    simp only [Scopes.enterFrame] at hend ⊢
    rw [hend]
    exact hstep

end Located

section Checks

variable {place : Position}

theorem joinAt_gives (a b : Ty) (hplace : S place) :
    Gives (·.PointsAt S) (joinAt a b place) fun _ => True := by
  unfold joinAt
  split
  · trivial
  · exact ⟨place, rfl, hplace⟩

theorem joinAll_gives (a : Ty) {found : List (Ty × Position)} (h : ∀ q ∈ found, S q.2) :
    Gives (·.PointsAt S) (joinAll a found) fun _ => True := by
  induction found generalizing a with
  | nil => trivial
  | cons next rest ih =>
    obtain ⟨hnext, hrest⟩ := List.forall_mem_cons.mp h
    exact (joinAt_gives a next.1 hnext).bind fun joined _ => ih joined hrest

theorem checkKinds_gives (callee : String) (index : Nat) (inputs : List (Parameter Ty))
    {arguments : List (Ty × Position)} (h : ∀ q ∈ arguments, S q.2) :
    Gives (·.PointsAt S) (checkKinds callee index inputs arguments) fun _ => True := by
  induction inputs generalizing index arguments with
  | nil => trivial
  | cons input inputs ih =>
    cases arguments with
    | nil => trivial
    | cons argument arguments =>
      obtain ⟨hargument, hrest⟩ := List.forall_mem_cons.mp h
      rw [checkKinds]
      split
      · exact ih (index + 1) hrest
      · exact ⟨argument.2, rfl, hargument⟩

theorem checkArguments_gives (callee : String) (inputs : List (Parameter Ty))
    {arguments : List (Ty × Position)} (hplace : S place) (h : ∀ q ∈ arguments, S q.2) :
    Gives (·.PointsAt S) (checkArguments callee place inputs arguments) fun _ => True := by
  unfold checkArguments
  split
  · exact checkKinds_gives callee 0 inputs h
  · exact ⟨place, rfl, hplace⟩

end Checks

section Expressions

/-- Declarations whose nodes are at places of the given sort are visited with no other fault. -/
def VisitsLocated (S : Position → Prop) (visit : Declaration → Check Unit) : Prop :=
  ∀ d, d.Nodes (StartsAt S) → Located S (visit d) fun _ => True

variable {visit : Declaration → Check Unit}

theorem expecting_located {found : Check Ty} (h : Located S found fun _ => True) (expected : Ty)
    {e : Expr} (he : e.Nodes (StartsAt S)) :
    Located S (expecting expected e found) fun _ => True :=
  h.bind fun _ _ => Located.ensure he.start trivial

theorem visitSymbol_located (hv : VisitsLocated S visit) {symbol : Symbol}
    (h : symbol.HoldsAt S) :
    Located S (visitSymbol visit symbol) fun _ => True := by
  unfold visitSymbol
  split
  · exact Upholds.pure trivial
  · cases hd : symbol.declaration? with
    | some d => exact hv d (h d hd)
    | none => exact Upholds.pure trivial

theorem calleeType_located (hv : VisitsLocated S visit) (callee : String) {place : Position}
    (hplace : S place) :
    Located S (calleeType visit callee place) fun _ => True := by
  refine (Located.resolve callee hplace).bind fun symbol hsymbol => ?_
  refine (visitSymbol_located hv hsymbol).bind fun _ _ => ?_
  refine (Located.resolve callee hplace).bind fun symbol _ => ?_
  split
  · exact Upholds.pure trivial
  · exact Located.fail hplace

mutual

/-- Every fault of typing an expression points at one of its nodes, or at one of a declaration in
scope. -/
theorem infer_located (hv : VisitsLocated S visit) : ∀ {e : Expr}, e.Nodes (StartsAt S) →
    Located S (infer visit e) fun _ => True
  | .boolean _ _, _ | .number _ _, _ | .text _ _, _ => Upholds.pure trivial
  | .identifier _ name, .identifier h =>
    (Located.resolve name h).bind fun _ _ => Upholds.pure trivial
  | .call _ callee _, .call h harguments => by
    refine (calleeType_located hv callee h).bind fun _ _ => ?_
    refine (inferAll_located hv harguments).bind fun received hplaces => ?_
    exact (Located.lift (checkArguments_gives callee _ h hplaces)).bind fun _ _ =>
      Upholds.pure trivial
  | .unary _ .not _, .unary _ hoperand | .unary _ .negate _, .unary _ hoperand =>
    (expecting_located (infer_located hv hoperand) _ hoperand).bind fun _ _ => Upholds.pure trivial
  | .binary _ op _ _, .binary _ hleft hright => by
    have hfirst := infer_located hv hleft
    have hsecond := infer_located hv hright
    cases op with
    | or | and | arithmetic _ | compare _ =>
      refine (expecting_located hfirst _ hleft).bind fun _ _ => ?_
      exact (expecting_located hsecond _ hright).bind fun _ _ => Upholds.pure trivial
    | equals =>
      exact hfirst.bind fun a _ => hsecond.bind fun b _ =>
        Located.ensure hright.start trivial
    | concat =>
      refine hfirst.bind fun a _ => ?_
      split
      · exact Located.fail hleft.start
      · refine hsecond.bind fun b _ => ?_
        split
        · exact Upholds.pure trivial
        · exact Located.fail hright.start
  | .conditional _ _ _ _, .conditional _ hcondition htrue hfalse => by
    refine (expecting_located (infer_located hv hcondition) _ hcondition).bind fun _ _ => ?_
    refine (infer_located hv htrue).bind fun a _ => (infer_located hv hfalse).bind fun b _ => ?_
    exact Located.lift (joinAt_gives a b hfalse.start)
  | .list _ [], _ => Upholds.pure trivial
  | .list _ (first :: rest), .list _ helements => by
    obtain ⟨hfirst, hrest⟩ := List.forall_mem_cons.mp helements
    refine (infer_located hv hfirst).bind fun type _ => ?_
    exact (inferJoined_located hv type hrest).bind fun _ _ => Upholds.pure trivial

/-- The places of arguments are where they start. -/
theorem inferAll_located (hv : VisitsLocated S visit) : ∀ {es : List Expr},
    (∀ e ∈ es, e.Nodes (StartsAt S)) →
    Located S (inferAll visit es) fun found => ∀ q ∈ found, S q.2
  | [], _ => Upholds.pure nofun
  | e :: rest, h => by
    obtain ⟨he, hrest⟩ := List.forall_mem_cons.mp h
    refine (infer_located hv he).bind fun type _ => ?_
    refine (inferAll_located hv hrest).bind fun found hfound => Upholds.pure ?_
    exact List.forall_mem_cons.mpr ⟨he.start, hfound⟩

theorem inferJoined_located (hv : VisitsLocated S visit) (type : Ty) : ∀ {es : List Expr},
    (∀ e ∈ es, e.Nodes (StartsAt S)) →
    Located S (inferJoined visit type es) fun _ => True
  | [], _ => Upholds.pure trivial
  | e :: rest, h => by
    obtain ⟨he, hrest⟩ := List.forall_mem_cons.mp h
    refine (infer_located hv he).bind fun received _ => ?_
    exact (Located.lift (joinAt_gives type received he.start)).bind fun joined _ =>
      inferJoined_located hv joined hrest

end

theorem inferBranches_located (hv : VisitsLocated S visit) {branches : List Branch}
    (h : ∀ b ∈ branches, b.Nodes (StartsAt S)) :
    Located S (inferBranches visit branches) fun found => ∀ q ∈ found, S q.2 := by
  induction branches with
  | nil => exact Upholds.pure nofun
  | cons branch rest ih =>
    obtain ⟨⟨_, hguard, haction⟩, hrest⟩ := List.forall_mem_cons.mp h
    refine (expecting_located (infer_located hv hguard) _ hguard).bind fun _ _ => ?_
    refine (infer_located hv haction).bind fun type _ => ?_
    refine (ih hrest).bind fun found hfound => Upholds.pure ?_
    exact List.forall_mem_cons.mpr ⟨haction.start, hfound⟩

theorem inferBody_located (hv : VisitsLocated S visit) {body : Body}
    (h : body.Nodes (StartsAt S)) : Located S (inferBody visit body) fun _ => True := by
  cases h with
  | inline hvalue => exact infer_located hv hvalue
  | piecewise _ hbranches hotherwise =>
    refine (inferBranches_located hv hbranches).bind fun guarded hguarded => ?_
    refine (infer_located hv hotherwise).bind fun last _ => ?_
    cases guarded with
    | nil => exact Upholds.pure trivial
    | cons first rest =>
      obtain ⟨_, hrest⟩ := List.forall_mem_cons.mp hguarded
      refine Located.lift (joinAll_gives first.1 fun q hq => ?_)
      rcases List.mem_append.mp hq with hq | hq
      · exact hrest q hq
      · rw [List.mem_singleton.mp hq]
        exact hotherwise.start

end Expressions

section Visits

theorem declareParameters_located {qs : List Param} (h : ∀ q ∈ qs, q.Nodes (StartsAt S)) :
    Located S (declareParameters qs) fun _ => True := by
  induction qs with
  | nil => exact Upholds.pure trivial
  | cons q qs ih =>
    obtain ⟨hq, hrest⟩ := List.forall_mem_cons.mp h
    refine Upholds.get.bind fun s hs => ?_
    have hparameter : (Symbol.parameter q.name q.type.toTy).HoldsAt S :=
      Symbol.holdsAt_of_role rfl
    refine (Located.lift (Scopes.declare_gives hs hparameter hq.node)).bind fun scopes hscopes => ?_
    exact Upholds.bind (Upholds.set hscopes) fun _ _ => ih hrest

/-- Only the type of a symbol is written down. -/
theorem record_located (d : Declaration) : Located S (record d) fun _ => True :=
  fun _ hs => ⟨⟨hs.global.modify d.name fun _ hsymbol => hsymbol, hs.locals⟩, trivial⟩

theorem unlessResolved_located {d : Declaration} (hd : d.Nodes (StartsAt S)) {visit : Check Unit}
    (h : Located S visit fun _ => True) : Located S (unlessResolved d visit) fun _ => True := by
  refine Upholds.get.bind fun s _ => ?_
  split
  · exact Located.fail hd.node
  · split
    · exact Upholds.pure trivial
    · exact h

theorem visitBody_located {visit : Declaration → Check Unit} (hv : VisitsLocated S visit)
    {d : Declaration} (hd : d.Nodes (StartsAt S)) :
    Located S (visitBody visit d) fun _ => True := by
  refine (declareParameters_located hd.parameters).bind fun _ _ => ?_
  refine (record_located d).bind fun _ _ => ?_
  refine (inferBody_located hv hd.body).bind fun received _ => ?_
  obtain ⟨_, hbody⟩ := hd.body.root
  exact Located.ensure hbody trivial

theorem visitWithin_located (n : Nat) : VisitsLocated S (visitWithin n) := by
  induction n with
  | zero => exact fun d hd => unlessResolved_located hd (Upholds.pure trivial)
  | succ n ih => exact fun d hd => unlessResolved_located hd (visitBody_located ih hd).inFrame

theorem visitAll_located {ds : List Declaration} (h : ∀ d ∈ ds, d.Nodes (StartsAt S)) :
    Located S (visitAll ds) fun _ => True := by
  induction ds with
  | nil => exact Upholds.pure trivial
  | cons d ds ih =>
    obtain ⟨hd, hrest⟩ := List.forall_mem_cons.mp h
    have hvisit : Located S (visit d) fun _ => True :=
      Upholds.get.bind fun s _ => visitWithin_located _ d hd
    exact hvisit.bind fun _ _ => ih hrest

end Visits

end Typing

end Piecewise
