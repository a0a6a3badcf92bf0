import Piecewise.Proofs.Typing.Alike
import Piecewise.Proofs.Typing.Visits

/-!
# Two programs checked side by side

Where two programs share names, a function of a shared name is visited in both in the same way:
the same functions are visited on the way, in the same order, and either both visits succeed or
both fail with the same diagnostic. Each side may have visited further functions before. The bounds
on visits inside visits need not be the same, and do not show.
-/

namespace Piecewise.Typing

/-- The state in which the functions of the given names have been visited, the latest first. -/
def State.after (p : Program) (visited : List String) (locals : List Scope) : State :=
  ⟨⟨p.globals visited, locals⟩, visited⟩

/-- A visit with visits inside it down to a depth, and what is done below that depth. -/
def visitElse (below : Declaration → Check Unit) : Nat → Declaration → Check Unit
  | 0, d => unlessResolved d (below d)
  | n + 1, d => unlessResolved d (inFrame (visitBody (visitElse below n) d))

theorem visitWithin_eq_visitElse : ∀ n, visitWithin n = visitElse (fun _ => return ()) n := by
  intro n
  induction n with
  | zero => funext d; rfl
  | succ n ih => funext d; rw [visitWithin, visitElse, ih]

/-- What two programs that are checked side by side must have in common, where some functions of
either have been visited before. -/
structure Comparable (p q : Program) (shared : String → Prop) (before before' : List String) :
    Prop where
  distinct : p.names.Nodup
  distinct' : q.names.Nodup
  functions : Shared p q shared
  visitedOnce : before.Nodup
  visited : ∀ name, shared name → (name ∈ before ↔ name ∈ before')

/-- Two states, one of each program, in the same local scopes, where the same functions have been
visited since, all of shared names. The bounds are on the functions that are still without a
type. -/
def Abreast (p q : Program) (shared : String → Prop) (before before' : List String) (n m : Nat)
    (locals : List Scope) (s t : State) : Prop :=
  ∃ visited, (visited ++ before).Nodup ∧ (∀ name ∈ visited, shared name) ∧
    p.unresolved (visited ++ before) ≤ n ∧ q.unresolved (visited ++ before') ≤ m ∧
    s = .after p (visited ++ before) locals ∧ t = .after q (visited ++ before') locals

/-- Making the frame of a function is the same whatever the global scope: it succeeds, or it fails
part of the way. -/
theorem declareParameters_frame : ∀ (qs : List Param) (frame : Scope),
    (∃ frame', ∀ global visited,
      declareParameters qs ⟨⟨global, [frame]⟩, visited⟩ = .ok () ⟨⟨global, [frame']⟩, visited⟩) ∨
    ∃ fault frame', ∀ global visited,
      declareParameters qs ⟨⟨global, [frame]⟩, visited⟩ =
        .error fault ⟨⟨global, [frame']⟩, visited⟩ := by
  intro qs
  induction qs with
  | nil => intro frame; exact Or.inl ⟨frame, fun _ _ => rfl⟩
  | cons q qs ih =>
    intro frame
    have hstep : ∀ global visited, declareParameters (q :: qs) ⟨⟨global, [frame]⟩, visited⟩ =
        EStateM.bind (lift ((frame.declare (.parameter q.name q.type.toTy) q.span.start).map
            fun scope => (⟨global, [scope]⟩ : Scopes)))
          (fun scopes _ => declareParameters qs ⟨scopes, visited⟩) ⟨⟨global, [frame]⟩, visited⟩ :=
      fun _ _ => rfl
    simp only [hstep]
    cases frame.declare (.parameter q.name q.type.toTy) q.span.start with
    | error fault => exact Or.inr ⟨fault, frame, fun _ _ => rfl⟩
    | ok scope => exact ih scope

section Visits

variable {p q : Program} {shared : String → Prop} {before before' : List String} {n m : Nat}

theorem Abreast.weaken {locals : List Scope} {s t : State} {n' m' : Nat}
    (h : Abreast p q shared before before' n m locals s t) (hn : n ≤ n') (hm : m ≤ m') :
    Abreast p q shared before before' n' m' locals s t := by
  obtain ⟨visited, hnodup, hnames, hleft, hright, hs, ht⟩ := h
  exact ⟨visited, hnodup, hnames, Nat.le_trans hleft hn, Nat.le_trans hright hm, hs, ht⟩

/-- Steps in frames of their own, whatever becomes of the frames. -/
theorem inFrame_abreast {locals : List Scope} {step twin : Check Unit} {s t : State}
    (hs : s.scopes.locals = locals) (ht : t.scopes.locals = locals)
    (h : SameOutcome (fun u v => ∃ inner, Abreast p q shared before before' n m inner u v)
      (step { s with scopes := ⟨s.scopes.global, [.empty]⟩ })
      (twin { t with scopes := ⟨t.scopes.global, [.empty]⟩ })) :
    SameOutcome (Abreast p q shared before before' n m locals)
      (inFrame step s) (inFrame twin t) := by
  have hback : ∀ u v inner, Abreast p q shared before before' n m inner u v →
      Abreast p q shared before before' n m locals
        { u with scopes := u.scopes.leaveFrame s.scopes.locals }
        { v with scopes := v.scopes.leaveFrame t.scopes.locals } := by
    intro u v inner huv
    obtain ⟨visited, hnodup, hnames, hleft, hright, rfl, rfl⟩ := huv
    exact ⟨visited, hnodup, hnames, hleft, hright, by rw [hs]; rfl, by rw [ht]; rfl⟩
  unfold inFrame
  simp only [Scopes.enterFrame]
  cases hstep : step { s with scopes := ⟨s.scopes.global, [.empty]⟩ } with
  | ok a u =>
    rw [hstep] at h
    cases htwin : twin { t with scopes := ⟨t.scopes.global, [.empty]⟩ } with
    | ok b v =>
      rw [htwin] at h
      cases h with
      | ok _ huv =>
        obtain ⟨inner, huv⟩ := huv
        exact .ok a (hback u v inner huv)
    | error d v => rw [htwin] at h; cases h
  | error d u =>
    rw [hstep] at h
    cases htwin : twin { t with scopes := ⟨t.scopes.global, [.empty]⟩ } with
    | ok b v => rw [htwin] at h; cases h
    | error d' v =>
      rw [htwin] at h
      cases h with
      | error _ huv =>
        obtain ⟨inner, huv⟩ := huv
        exact .error d (hback u v inner huv)

/-- A name means the same to both in the frame of a function that they share, if it is a parameter
or a name that they share. -/
theorem understood_frame (hpq : Comparable p q shared before before') {d : Declaration}
    {visit visit' : Declaration → Check Unit}
    (hvisits : ∀ f ∈ p.declarations, shared f.name →
      Alike (Abreast p q shared before before' n m [d.frame]) (visit f) (visit' f)) {name : String}
    (hname : name ∈ d.parameterNames ∨ shared name) :
    Understood (Abreast p q shared before before' n m [d.frame]) visit visit' name := by
  have hmem : name ∉ d.parameterNames → shared name := fun hnot => hname.resolve_left hnot
  have hframe : d.frame.get? name = none ↔ name ∉ d.parameterNames := by
    rw [Scope.get?_eq_none_iff]
    simp [Scope.names, Declaration.frame, Declaration.parameterNames, Symbol.parameter]
  constructor
  · intro s t hst
    obtain ⟨visited, _, _, _, _, rfl, rfl⟩ := hst
    simp only [State.after, Scopes.resolve?_frame]
    cases hparameter : d.frame.get? name with
    | some symbol => rfl
    | none =>
      have hshared := hmem (hframe.mp hparameter)
      have hvisited : name ∈ visited ++ before ↔ name ∈ visited ++ before' := by
        simp [hpq.visited name hshared]
      simp only [Option.none_or, Program.get?_globals, hpq.functions.same name hshared, hvisited]
  · intro s t hst symbol hsymbol f hf
    obtain ⟨visited, _, _, _, _, rfl, rfl⟩ := hst
    simp only [State.after, Scopes.resolve?_frame] at hsymbol
    cases hparameter : d.frame.get? name with
    | some found =>
      have hfound : found ∈ d.frame.symbols := List.mem_of_find?_eq_some hparameter
      obtain ⟨r, _, rfl⟩ := List.mem_map.mp hfound
      rw [hparameter] at hsymbol
      cases hsymbol
      cases hf
    | none =>
      have hshared := hmem (hframe.mp hparameter)
      rw [hparameter, Option.none_or, Program.get?_globals] at hsymbol
      obtain ⟨g, hg, rfl⟩ := Option.map_eq_some_iff.mp hsymbol
      have hgf : g = f := by
        split at hf <;> exact Option.some.inj hf
      subst hgf
      obtain ⟨hdeclared, hgname⟩ := Program.mem_of_find? hg
      exact hvisits g hdeclared (hgname ▸ hshared)

theorem Comparable.mem_right (hpq : Comparable p q shared before before') {d : Declaration}
    (hd : d ∈ p.declarations) (hshared : shared d.name) : d ∈ q.declarations := by
  have hfind := Program.find?_of_mem hpq.distinct hd
  rw [hpq.functions.same d.name hshared] at hfind
  exact (Program.mem_of_find? hfind).1

/-- Every name in the body of a function that both share is understood in its frame. -/
theorem understood_body (hpq : Comparable p q shared before before') {d : Declaration}
    (hd : d ∈ p.declarations) (hshared : shared d.name) {visit visit' : Declaration → Check Unit}
    (hvisits : ∀ f ∈ p.declarations, shared f.name →
      Alike (Abreast p q shared before before' n m [d.frame]) (visit f) (visit' f)) :
    OnlyNames (Understood (Abreast p q shared before before' n m [d.frame]) visit visit')
      d.body.identifiers d.body.calls := by
  have honly := hpq.functions.closed d hd hshared
  exact ⟨fun name hname => understood_frame hpq hvisits (honly.values name hname),
    fun c hc => understood_frame hpq hvisits (honly.callees c hc)⟩

/-- The body of a function that both share is visited alike. The function itself has its type when
its body is looked at, so there is one less without. -/
theorem visitBody_abreast (hpq : Comparable p q shared before before') {d : Declaration}
    (hd : d ∈ p.declarations) (hshared : shared d.name) {visit visit' : Declaration → Check Unit}
    (hvisits : ∀ f ∈ p.declarations, shared f.name →
      Alike (Abreast p q shared before before' n m [d.frame]) (visit f) (visit' f))
    {visited : List String} (hnodup : (visited ++ before).Nodup)
    (hnames : ∀ name ∈ visited, shared name)
    (hnew : d.name ∉ visited ++ before) (hnew' : d.name ∉ visited ++ before')
    (hleft : p.unresolved (visited ++ before) ≤ n + 1)
    (hright : q.unresolved (visited ++ before') ≤ m + 1) :
    SameOutcome (fun u v => ∃ inner, Abreast p q shared before before' (n + 1) (m + 1) inner u v)
      (visitBody visit d (.after p (visited ++ before) [.empty]))
      (visitBody visit' d (.after q (visited ++ before') [.empty])) := by
  have hd' := hpq.mem_right hd hshared
  have hstep : ∀ (visit : Declaration → Check Unit) (s : State), visitBody visit d s =
      EStateM.bind (declareParameters d.parameters) (fun _ => EStateM.bind (record d) fun _ =>
        inferBody visit d.body >>= fun received => if received.agrees d.output then pure ()
          else throw (mismatch d.output received d.body.span.start)) s := fun _ _ => rfl
  rw [hstep, hstep]
  unfold EStateM.bind
  rcases declareParameters_frame d.parameters .empty with ⟨frame, hok⟩ | ⟨fault, frame, herror⟩
  · have hframe : frame = d.frame := by
      have hmade := (declareParameters_empty_eq_ok_iff (s := .after p [] [.empty]) rfl d).mp
        (hok (p.globals []) [])
      have hscopes := congrArg (fun u : State => u.scopes.locals) hmade.2
      exact List.cons.inj hscopes |>.1
    have hrest : Alike (Abreast p q shared before before' n m [d.frame])
        (inferBody visit d.body >>= fun received => if received.agrees d.output then pure ()
          else throw (mismatch d.output received d.body.span.start))
        (inferBody visit' d.body >>= fun received => if received.agrees d.output then pure ()
          else throw (mismatch d.output received d.body.span.start)) :=
      .bind (inferBody_alike (understood_body hpq hd hshared hvisits)) fun _ => .ensure () _
    have hcounted := Program.unresolved_cons_lt hd hnew
    have hcounted' := Program.unresolved_cons_lt hd' hnew'
    have hrecorded : Abreast p q shared before before' n m [d.frame]
        (.after p (d.name :: (visited ++ before)) [d.frame])
        (.after q (d.name :: (visited ++ before')) [d.frame]) :=
      ⟨d.name :: visited, List.nodup_cons.mpr ⟨hnew, hnodup⟩,
        List.forall_mem_cons.mpr ⟨hshared, hnames⟩, by simp; omega, by simp; omega, rfl, rfl⟩
    simp only [State.after, hok, hframe]
    rw [record_eq hpq.distinct hd rfl, record_eq hpq.distinct' hd' rfl]
    exact (hrest _ _ hrecorded).weaken fun u v huv =>
      ⟨[d.frame], huv.weaken (Nat.le_succ n) (Nat.le_succ m)⟩
  · simp only [State.after, herror]
    exact .error fault ⟨[frame], visited, hnodup, hnames, hleft, hright, rfl, rfl⟩

/-- Nothing is done for a function that has been visited. -/
theorem visitElse_of_mem (hp : p.names.Nodup) {d : Declaration} (hd : d ∈ p.declarations)
    {visited : List String} (hmem : d.name ∈ visited) (locals : List Scope)
    (below : Declaration → Check Unit) (n : Nat) :
    visitElse below n d (.after p visited locals) = .ok () (.after p visited locals) := by
  cases n with
  | zero => exact unlessResolved_of_mem hp hd rfl hmem _
  | succ n => exact unlessResolved_of_mem hp hd rfl hmem _

/-- Visits of a function that both share do alike, whatever is done below their depths: neither
gets there. -/
theorem visitElse_abreast (hpq : Comparable p q shared before before')
    (below below' : Declaration → Check Unit) : ∀ (n m : Nat) (locals : List Scope),
    ∀ d ∈ p.declarations, shared d.name →
      Alike (Abreast p q shared before before' n m locals) (visitElse below n d)
        (visitElse below' m d) := by
  intro n
  induction n with
  | zero =>
    intro m locals d hd hshared s t hst
    obtain ⟨visited, hnodup, hnames, hleft, hright, rfl, rfl⟩ := hst
    have hmem : d.name ∈ visited ++ before := by
      by_contra hnew
      have hless := Program.unresolved_cons_lt hd hnew
      omega
    have hmem' : d.name ∈ visited ++ before' := by
      simpa [hpq.visited d.name hshared] using hmem
    rw [visitElse_of_mem hpq.distinct hd hmem,
      visitElse_of_mem hpq.distinct' (hpq.mem_right hd hshared) hmem']
    exact .ok () ⟨visited, hnodup, hnames, hleft, hright, rfl, rfl⟩
  | succ n ih =>
    intro m locals d hd hshared s t hst
    obtain ⟨visited, hnodup, hnames, hleft, hright, rfl, rfl⟩ := hst
    have hd' := hpq.mem_right hd hshared
    have hiff : d.name ∈ visited ++ before ↔ d.name ∈ visited ++ before' := by
      simp [hpq.visited d.name hshared]
    by_cases hmem : d.name ∈ visited ++ before
    · rw [visitElse_of_mem hpq.distinct hd hmem, visitElse_of_mem hpq.distinct' hd' (hiff.mp hmem)]
      exact .ok () ⟨visited, hnodup, hnames, hleft, hright, rfl, rfl⟩
    · have hnew' : d.name ∉ visited ++ before' := fun h => hmem (hiff.mpr h)
      have hless' := Program.unresolved_cons_lt hd' hnew'
      cases m with
      | zero => omega
      | succ m =>
        rw [visitElse, visitElse, unlessResolved_of_not_mem hpq.distinct hd rfl hmem,
          unlessResolved_of_not_mem hpq.distinct' hd' rfl hnew']
        refine inFrame_abreast rfl rfl ?_
        exact visitBody_abreast hpq hd hshared (ih m [d.frame]) hnodup hnames hmem hnew' hleft
          hright

theorem visit_eq_visitElse (d : Declaration) (s : State) :
    visit d s = visitElse (fun _ => return ()) s.scopes.pending d s := by
  rw [← visitWithin_eq_visitElse]
  rfl

/-- No more functions are without a type than a program has. -/
theorem unresolved_le_length (p : Program) (visited : List String) :
    p.unresolved visited ≤ p.declarations.length := List.countP_le_length

/-- The functions of the first program without a type are a bound on them. -/
theorem Abreast.tighten_left {locals : List Scope} {s t : State}
    (h : Abreast p q shared before before' n m locals s t) :
    Abreast p q shared before before' s.scopes.pending m locals s t := by
  obtain ⟨visited, hnodup, hnames, _, hright, rfl, rfl⟩ := h
  exact ⟨visited, hnodup, hnames, Nat.le_of_eq (Program.pending_globals p _ locals).symm, hright,
    rfl, rfl⟩

theorem Abreast.tighten_right {locals : List Scope} {s t : State}
    (h : Abreast p q shared before before' n m locals s t) :
    Abreast p q shared before before' n t.scopes.pending locals s t := by
  obtain ⟨visited, hnodup, hnames, hleft, _, rfl, rfl⟩ := h
  exact ⟨visited, hnodup, hnames, hleft, Nat.le_of_eq (Program.pending_globals q _ locals).symm,
    rfl, rfl⟩

/-- Bounds that the number of functions does not exceed say nothing. -/
theorem Abreast.loosen {locals : List Scope} {s t : State} {n' m' : Nat}
    (h : Abreast p q shared before before' n m locals s t) (hn : p.declarations.length ≤ n')
    (hm : q.declarations.length ≤ m') : Abreast p q shared before before' n' m' locals s t := by
  obtain ⟨visited, hnodup, hnames, _, _, hs, ht⟩ := h
  have hleft := unresolved_le_length p (visited ++ before)
  have hright := unresolved_le_length q (visited ++ before')
  exact ⟨visited, hnodup, hnames, by omega, by omega, hs, ht⟩

variable {locals : List Scope} {d : Declaration}

/-- The checker visits a function that two programs share in both alike. -/
theorem visit_abreast (hpq : Comparable p q shared before before')
    (hn : p.declarations.length ≤ n) (hm : q.declarations.length ≤ m)
    (hd : d ∈ p.declarations) (hshared : shared d.name) :
    Alike (Abreast p q shared before before' n m locals) (visit d) (visit d) := by
  intro s t hst
  rw [visit_eq_visitElse, visit_eq_visitElse]
  have halike := visitElse_abreast hpq (fun _ => return ()) (fun _ => return ())
    s.scopes.pending t.scopes.pending locals d hd hshared
  exact (halike s t hst.tighten_left.tighten_right).weaken fun u v huv => huv.loosen hn hm

/-- The visits of the checker are like visits to any depth that the functions do not exceed. -/
theorem visit_abreast_visitElse (hpq : Comparable p q shared before before')
    (below : Declaration → Check Unit) (hn : p.declarations.length ≤ n)
    (hm : q.declarations.length ≤ m) (hd : d ∈ p.declarations) (hshared : shared d.name) :
    Alike (Abreast p q shared before before' n m locals) (visit d) (visitElse below m d) := by
  intro s t hst
  rw [visit_eq_visitElse]
  have halike := visitElse_abreast hpq (fun _ => return ()) below s.scopes.pending m locals d hd
    hshared
  exact (halike s t hst.tighten_left).weaken fun u v huv => huv.loosen hn hm

theorem visitAll_eq_forM : ∀ ds : List Declaration, visitAll ds = ds.forM visit := by
  intro ds
  induction ds with
  | nil => rfl
  | cons d ds ih =>
    change (visit d >>= fun _ => visitAll ds) = (visit d >>= fun _ => ds.forM visit)
    rw [ih]

/-- Nothing has been visited since the start. -/
theorem Abreast.start (hbefore : before.Nodup) (hn : p.declarations.length ≤ n)
    (hm : q.declarations.length ≤ m) :
    Abreast p q shared before before' n m locals (.after p before locals)
      (.after q before' locals) := by
  have hleft := Nat.le_trans (unresolved_le_length p before) hn
  have hright := Nat.le_trans (unresolved_le_length q before') hm
  exact ⟨[], hbefore, nofun, hleft, hright, rfl, rfl⟩

/-- Functions that two programs share are visited in both alike, one after the other. -/
theorem visitAll_abreast (hpq : Comparable p q shared before before') {ds : List Declaration}
    (hds : ∀ d ∈ ds, d ∈ p.declarations ∧ shared d.name) :
    SameOutcome (Abreast p q shared before before' p.declarations.length q.declarations.length [])
      (visitAll ds (.after p before [])) (visitAll ds (.after q before' [])) := by
  rw [visitAll_eq_forM]
  refine Alike.forM (fun d hd => ?_) _ _ (.start hpq.visitedOnce (Nat.le_refl _) (Nat.le_refl _))
  exact visit_abreast hpq (Nat.le_refl _) (Nat.le_refl _) (hds d hd).1 (hds d hd).2

end Visits

end Piecewise.Typing
