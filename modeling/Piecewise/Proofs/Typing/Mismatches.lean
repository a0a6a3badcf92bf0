import Piecewise.Proofs.Ty.Shown
import Piecewise.Run.Program

/-!
# What is shown of a mismatch

The checker compares types in several ways: by their outermost shape, in depth, or by the join that
they have. Messages show types without names of parameters. As no comparison looks at these names,
and types that are shown alike differ in them only, a comparison never fails on two types that are
shown alike: what was asked for and what was found read differently in every message.
-/

namespace Piecewise

/-- A fault that says two things, what was asked for and what was found, does not say the same
twice. -/
def Fault.Contrasts : Fault → Prop
  | typeMismatch expected received => expected ≠ received
  | argumentMismatch _ _ expected received => expected ≠ received
  | _ => True

namespace Typing

/-- A step that fails with diagnostics as described only. -/
def Raises {α : Type} (P : Diagnostic → Prop) (step : Check α) : Prop :=
  ∀ s d t, step s = .error d t → P d

namespace Raises

variable {α β : Type} {P : Diagnostic → Prop}

theorem pure (a : α) : Raises P (Pure.pure a : Check α) := nofun

theorem throw {d : Diagnostic} (h : P d) : Raises P (MonadExcept.throw d : Check α) := by
  intro s e t hthrow
  cases hthrow
  exact h

/-- Whatever would follow a failure. -/
theorem throw_bind {d : Diagnostic} {next : α → Check β} (h : P d) :
    Raises P ((MonadExcept.throw d : Check α) >>= next) := by
  intro s e t hthrow
  cases hthrow
  exact h

theorem bind {step : Check α} {next : α → Check β} (h : Raises P step)
    (k : ∀ a, Raises P (next a)) : Raises P (step >>= next) := by
  intro s d t hfail
  change EStateM.bind step next s = .error d t at hfail
  unfold EStateM.bind at hfail
  cases hstep : step s with
  | ok a u =>
    rw [hstep] at hfail
    exact k a u d t hfail
  | error e u =>
    rw [hstep] at hfail
    cases hfail
    exact h s d t hstep

theorem lift {outcome : Except Diagnostic α} (h : ∀ d, outcome = .error d → P d) :
    Raises P (Typing.lift outcome) := by
  cases outcome with
  | ok a => exact pure a
  | error d => exact throw (h d rfl)

/-- A comparison on which a step goes on or fails. -/
theorem ensure {c : Prop} [Decidable c] {a : α} {d : Diagnostic} (h : ¬c → P d) :
    Raises P (if c then Pure.pure a else MonadExcept.throw d) := by
  split
  · exact pure a
  · rename_i hc
    exact throw (h hc)

theorem get : Raises P (MonadState.get : Check State) := nofun

/-- A step in a frame of its own. -/
theorem inFrame {step : Check α} (h : Raises P step) : Raises P (Typing.inFrame step) := by
  intro s d t hfail
  unfold Typing.inFrame at hfail
  cases hstep : step { s with scopes := s.scopes.enterFrame.2 } with
  | ok a u =>
    simp only [Scopes.enterFrame] at hstep hfail
    rw [hstep] at hfail
    cases hfail
  | error e u =>
    simp only [Scopes.enterFrame] at hstep hfail
    rw [hstep] at hfail
    cases hfail
    exact h _ d u hstep

end Raises

section Contrasts

variable {a b : Ty} {place : Position}

/-- Types that do not agree are shown in different words. -/
theorem contrasts_mismatch (h : ¬a.agrees b = true) : (mismatch a b place).fault.Contrasts :=
  fun hshown => h (Ty.agrees_of_shown_eq hshown)

theorem contrasts_mismatch_of_kind (h : a.kind ≠ b.kind) :
    (mismatch a b place).fault.Contrasts :=
  contrasts_mismatch fun hagrees => h (Ty.kind_of_agrees hagrees)

/-- A step of which every fault says different things of what was asked for and what was found. -/
abbrev Contrasting {α : Type} (step : Check α) : Prop :=
  Raises (fun d => d.fault.Contrasts) step

theorem resolve_contrasting (name : String) (place : Position) :
    Contrasting (resolve name place) := by
  refine .bind .get fun s => .lift fun d hfail => ?_
  unfold Scopes.resolve at hfail
  split at hfail
  · cases hfail
  · cases hfail
    trivial

theorem joinAt_contrasts {d : Diagnostic} (h : joinAt a b place = .error d) :
    d.fault.Contrasts := by
  unfold joinAt at h
  split at h
  · cases h
  · rename_i hnone
    cases h
    refine contrasts_mismatch fun hagrees => ?_
    rw [← Ty.join_isSome_iff, hnone] at hagrees
    cases hagrees

/-- Of two types that are not joined as lists the second is no list, or disagrees with the first. -/
theorem not_agrees_of_joinLists (ha : ¬a.element?.isNone = true) (h : a.joinLists b = none) :
    ¬a.agrees b = true := by
  have hlist : a.kind = .list := by
    cases a with
    | list α => rfl
    | boolean | real | integer | text | function | unresolved => exact absurd rfl ha
  intro hagrees
  obtain ⟨joined, hjoined⟩ := Option.isSome_iff_exists.mp (Ty.join_isSome_iff.mpr hagrees)
  rw [Ty.joinLists_eq_some_iff.mpr ⟨hlist, Ty.kind_of_agrees hagrees ▸ hlist, hjoined⟩] at h
  cases h

theorem joinAll_contrasts {found : List (Ty × Position)} {d : Diagnostic}
    (h : joinAll a found = .error d) : d.fault.Contrasts := by
  induction found generalizing a with
  | nil => cases h
  | cons next rest ih =>
    rw [joinAll] at h
    cases hjoined : joinAt a next.1 next.2 with
    | ok joined =>
      rw [hjoined] at h
      exact ih h
    | error e =>
      rw [hjoined] at h
      cases h
      exact joinAt_contrasts hjoined

theorem checkKinds_contrasts {callee : String} {index : Nat} {inputs : List (Parameter Ty)}
    {arguments : List (Ty × Position)} {d : Diagnostic}
    (h : checkKinds callee index inputs arguments = .error d) : d.fault.Contrasts := by
  induction inputs generalizing index arguments with
  | nil => cases h
  | cons input inputs ih =>
    cases arguments with
    | nil => cases h
    | cons argument arguments =>
      rw [checkKinds] at h
      split at h
      · exact ih h
      · rename_i hkind
        cases h
        intro hshown
        exact hkind (Ty.sameKind_iff.mpr (Ty.kind_of_agrees (Ty.agrees_of_shown_eq hshown)))

theorem checkArguments_contrasts {callee : String} {inputs : List (Parameter Ty)}
    {arguments : List (Ty × Position)} {d : Diagnostic}
    (h : checkArguments callee place inputs arguments = .error d) : d.fault.Contrasts := by
  unfold checkArguments at h
  split at h
  · exact checkKinds_contrasts h
  · cases h
    trivial

end Contrasts

section Expressions

variable {visit : Declaration → Check Unit}

theorem visitSymbol_contrasting (hv : ∀ d, Contrasting (visit d)) (symbol : Symbol) :
    Contrasting (visitSymbol visit symbol) := by
  unfold visitSymbol
  split
  · exact .pure _
  · split
    · exact hv _
    · exact .pure _

/-- What is called and is no function is shown as some type, and no type is shown as all functions
are. -/
theorem calleeType_contrasting (hv : ∀ d, Contrasting (visit d)) (callee : String)
    (place : Position) : Contrasting (calleeType visit callee place) := by
  refine .bind (resolve_contrasting callee place) fun symbol => ?_
  refine .bind (visitSymbol_contrasting hv symbol) fun _ => ?_
  refine .bind (resolve_contrasting callee place) fun found => ?_
  split
  · exact .pure _
  · exact .throw (Ty.shown_ne_function found.type).symm

theorem expecting_contrasting {found : Check Ty} (h : Contrasting found) (expected : Ty)
    (e : Expr) : Contrasting (expecting expected e found) := by
  refine .bind h fun received => .ensure fun hkind => ?_
  exact contrasts_mismatch_of_kind fun heq => hkind (Ty.sameKind_iff.mpr heq.symm)

mutual

theorem infer_contrasting (hv : ∀ d, Contrasting (visit d)) :
    ∀ e : Expr, Contrasting (infer visit e)
  | .boolean _ _ | .number _ _ | .text _ _ => .pure _
  | .identifier span name => .bind (resolve_contrasting name span.start) fun _ => .pure _
  | .call span callee arguments => by
    refine .bind (calleeType_contrasting hv callee span.start) fun found => ?_
    refine .bind (inferAll_contrasting hv arguments) fun received => ?_
    exact .bind (.lift fun _ hfail => checkArguments_contrasts hfail) fun _ => .pure _
  | .unary _ .not operand =>
    .bind (expecting_contrasting (infer_contrasting hv operand) _ operand) fun _ => .pure _
  | .unary _ .negate operand =>
    .bind (expecting_contrasting (infer_contrasting hv operand) _ operand) fun _ => .pure _
  | .binary _ op left right => by
    have hleft := infer_contrasting hv left
    have hright := infer_contrasting hv right
    cases op with
    | or | and | arithmetic _ | compare _ =>
      refine .bind (expecting_contrasting hleft _ left) fun _ => ?_
      exact .bind (expecting_contrasting hright _ right) fun _ => .pure _
    | equals =>
      refine .bind hleft fun a => .bind hright fun b => .ensure fun hkind => ?_
      exact contrasts_mismatch_of_kind fun heq => hkind (Ty.sameKind_iff.mpr heq)
    | concat =>
      refine .bind hleft fun a => ?_
      split
      · rename_i hlist
        refine .throw_bind (contrasts_mismatch_of_kind fun hkind => ?_)
        obtain ⟨element, rfl⟩ := Ty.kind_list_iff.mp hkind.symm
        cases hlist
      · rename_i hlist
        refine .bind hright fun b => ?_
        split
        · exact .pure _
        · rename_i hnone
          exact .throw (contrasts_mismatch (not_agrees_of_joinLists hlist hnone))
  | .conditional _ condition whenTrue whenFalse => by
    refine .bind (expecting_contrasting (infer_contrasting hv condition) _ condition) fun _ => ?_
    refine .bind (infer_contrasting hv whenTrue) fun a => ?_
    refine .bind (infer_contrasting hv whenFalse) fun b => ?_
    exact .lift fun _ hfail => joinAt_contrasts hfail
  | .list _ [] => .pure _
  | .list _ (first :: rest) => by
    refine .bind (infer_contrasting hv first) fun type => ?_
    exact .bind (inferJoined_contrasting hv rest type) fun _ => .pure _

theorem inferAll_contrasting (hv : ∀ d, Contrasting (visit d)) :
    ∀ es : List Expr, Contrasting (inferAll visit es)
  | [] => .pure _
  | e :: rest =>
    .bind (infer_contrasting hv e) fun _ =>
      .bind (inferAll_contrasting hv rest) fun _ => .pure _

theorem inferJoined_contrasting (hv : ∀ d, Contrasting (visit d)) :
    ∀ (es : List Expr) (type : Ty), Contrasting (inferJoined visit type es)
  | [], _ => .pure _
  | e :: rest, type => by
    refine .bind (infer_contrasting hv e) fun received => ?_
    refine .bind (.lift fun _ hfail => joinAt_contrasts hfail) fun joined => ?_
    exact inferJoined_contrasting hv rest joined

end

theorem inferBranches_contrasting (hv : ∀ d, Contrasting (visit d)) (branches : List Branch) :
    Contrasting (inferBranches visit branches) := by
  induction branches with
  | nil => exact .pure _
  | cons branch rest ih =>
    refine .bind (expecting_contrasting (infer_contrasting hv branch.guard) _ branch.guard) ?_
    exact fun _ => .bind (infer_contrasting hv branch.action) fun _ => .bind ih fun _ => .pure _

theorem inferBody_contrasting (hv : ∀ d, Contrasting (visit d)) (body : Body) :
    Contrasting (inferBody visit body) := by
  cases body with
  | inline value => exact infer_contrasting hv value
  | piecewise span branches otherwise =>
    refine .bind (inferBranches_contrasting hv branches) fun guarded => ?_
    refine .bind (infer_contrasting hv otherwise) fun last => ?_
    cases guarded with
    | nil => exact .pure _
    | cons first rest => exact .lift fun _ hfail => joinAll_contrasts hfail

end Expressions

section Visits

theorem declare_contrasts {scopes : Scopes} {symbol : Symbol} {place : Position} {d : Diagnostic}
    (h : scopes.declare symbol place = .error d) : d.fault.Contrasts := by
  unfold Scopes.declare Scope.declare at h
  split at h
  · cases h
    trivial
  · cases h

theorem declareParameters_contrasting (qs : List Param) :
    Contrasting (declareParameters qs) := by
  induction qs with
  | nil => exact .pure _
  | cons q qs ih =>
    refine .bind .get fun s => ?_
    refine .bind (.lift fun _ hfail => declare_contrasts hfail) fun scopes => ?_
    exact .bind (fun _ _ _ hset => by cases hset) fun _ => ih

theorem unlessResolved_contrasting (d : Declaration) {visit : Check Unit}
    (h : Contrasting visit) : Contrasting (unlessResolved d visit) := by
  refine .bind .get fun s => ?_
  split
  · exact .throw trivial
  · split
    · exact .pure _
    · exact h

theorem visitBody_contrasting {visit : Declaration → Check Unit}
    (hv : ∀ d, Contrasting (visit d)) (d : Declaration) : Contrasting (visitBody visit d) := by
  refine .bind (declareParameters_contrasting d.parameters) fun _ => ?_
  refine .bind (fun _ _ _ hrecord => by cases hrecord) fun _ => ?_
  refine .bind (inferBody_contrasting hv d.body) fun received => .ensure fun hagrees => ?_
  rw [Ty.agrees_comm] at hagrees
  exact contrasts_mismatch hagrees

theorem visitWithin_contrasting (n : Nat) : ∀ d, Contrasting (visitWithin n d) := by
  induction n with
  | zero => exact fun d => unlessResolved_contrasting d (.pure _)
  | succ n ih => exact fun d => unlessResolved_contrasting d (.inFrame (visitBody_contrasting ih d))

theorem visitAll_contrasting (ds : List Declaration) : Contrasting (visitAll ds) := by
  induction ds with
  | nil => exact .pure _
  | cons d ds ih =>
    have hvisit : Contrasting (visit d) := .bind .get fun s => visitWithin_contrasting _ d
    exact .bind hvisit fun _ => ih

end Visits

/-- No diagnostic of the checker contradicts itself. Whatever the scopes, those in which the program
was declared among them: where the check fails because of a type, the text of what was asked for is
not the text of what was found. -/
theorem mismatches_read_differently (p : Program) (scopes : Scopes) (place : Option Position) :
    (∀ expected received, p.check scopes = .error ⟨.typeMismatch expected received, place⟩ →
      expected ≠ received) ∧
    ∀ callee index expected received,
      p.check scopes = .error ⟨.argumentMismatch callee index expected received, place⟩ →
        expected ≠ received := by
  have hcontrasts : ∀ d, p.check scopes = .error d → d.fault.Contrasts := by
    intro d hfail
    unfold Program.check at hfail
    split at hfail
    · cases hfail
    · rename_i e s hcheck
      cases hfail
      exact visitAll_contrasting p.declarations _ d s hcheck
  exact ⟨fun _ _ => hcontrasts _, fun _ _ _ _ => hcontrasts _⟩

/-- `first(xs: [bool]) -> bool = true` and a function `main` of the given type and value. -/
def callingProgram (returns : TypeExpr) (value : Expr) : Program where
  declarations :=
    [{ number := 0
       name := "first"
       parameters := [⟨"xs", .list default (.primitive default .bool), default⟩]
       returns := .primitive default .bool
       body := .inline (.boolean default true)
       span := default },
     { number := 1
       name := "main"
       parameters := []
       returns
       body := .inline value
       span := default }]
  span := default

/-- `main() -> [bool] = first([])`. -/
def misdeclaredProgram : Program :=
  callingProgram (.list default (.primitive default .bool))
    (.call default "first" [.list default []])

/-- `main() -> bool = first(true)`. -/
def miscallingProgram : Program :=
  callingProgram (.primitive default .bool) (.call default "first" [.boolean default true])

/-- One program fails at the body of `main`, the other one at the argument of a call. -/
theorem mismatches_read_differently_misdeclared :
    (∃ declared place, Scopes.ofProgram misdeclaredProgram = .ok declared ∧
      misdeclaredProgram.check declared = .error ⟨.typeMismatch "[bool]" "bool", place⟩ ∧
      "[bool]" ≠ "bool") ∧
    ∃ declared place, Scopes.ofProgram miscallingProgram = .ok declared ∧
      miscallingProgram.check declared =
        .error ⟨.argumentMismatch "first" 0 "[bool]" "bool", place⟩ ∧ "[bool]" ≠ "bool" := by
  have hbody : ∃ declared place, Scopes.ofProgram misdeclaredProgram = .ok declared ∧
      misdeclaredProgram.check declared = .error ⟨.typeMismatch "[bool]" "bool", place⟩ :=
    ⟨_, _, rfl, rfl⟩
  have hargument : ∃ declared place, Scopes.ofProgram miscallingProgram = .ok declared ∧
      miscallingProgram.check declared =
        .error ⟨.argumentMismatch "first" 0 "[bool]" "bool", place⟩ := ⟨_, _, rfl, rfl⟩
  obtain ⟨declared, place, hdeclared, hfail⟩ := hbody
  obtain ⟨declared', place', hdeclared', hfail'⟩ := hargument
  have htexts := (mismatches_read_differently misdeclaredProgram declared place).1 _ _ hfail
  have htexts' := (mismatches_read_differently miscallingProgram declared' place').2 _ _ _ _ hfail'
  exact ⟨⟨declared, place, hdeclared, hfail, htexts⟩,
    declared', place', hdeclared', hfail', htexts'⟩

end Typing

end Piecewise
