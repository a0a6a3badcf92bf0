import Piecewise.Proofs.Scope.Lookup
import Piecewise.Typing.Program

/-!
# Visits

What a visit of a function does to the scopes of a program, step by step: nothing where the type
is known; else its parameters make a frame, its type is written down, its body is typed in the
frame, and the scopes around it come back.
-/

namespace Piecewise.Typing

/-- Parameters as symbols without values, with their places. -/
def parameterEntries (qs : List Param) : List (Symbol × Position) :=
  qs.map fun q => (.parameter q.name q.type.toTy, q.span.start)

theorem declareParameters_eq_ok_iff {global : Scope} {outer : List Scope} {t : State} :
    ∀ {qs : List Param} {frame : Scope} {s : State}, s.scopes = ⟨global, frame :: outer⟩ →
    (declareParameters qs s = .ok () t ↔ ∃ scope,
      frame.declareAll (parameterEntries qs) = .ok scope ∧
        t = { s with scopes := ⟨global, scope :: outer⟩ }) := by
  intro qs
  induction qs with
  | nil =>
    intro frame s hs
    have hstep : declareParameters [] s = .ok () s := rfl
    have hall : frame.declareAll (parameterEntries []) = .ok frame := rfl
    rw [hstep, hall]
    simp [← hs, eq_comm]
  | cons q qs ih =>
    intro frame s hs
    have hstep : declareParameters (q :: qs) s =
        EStateM.bind (lift (s.scopes.declare (.parameter q.name q.type.toTy) q.span.start))
          (fun scopes _ => declareParameters qs { s with scopes }) s := rfl
    rw [hstep, hs, Scopes.declare_frame, parameterEntries, List.map_cons, Scope.declareAll_cons]
    cases frame.declare (.parameter q.name q.type.toTy) q.span.start with
    | error fault =>
      constructor
      · intro h; cases h
      · rintro ⟨_, h, _⟩; cases h
    | ok scope => exact ih rfl

/-- The frame of a function can be made exactly where its parameters have different names. -/
theorem declareParameters_empty_eq_ok_iff {global : Scope} {outer : List Scope} {s t : State}
    (hs : s.scopes = ⟨global, .empty :: outer⟩) (d : Declaration) :
    declareParameters d.parameters s = .ok () t ↔
      d.parameterNames.Nodup ∧ t = { s with scopes := ⟨global, d.frame :: outer⟩ } := by
  have hnames : (parameterEntries d.parameters).map (fun entry => entry.1.name) =
      d.parameterNames := by
    simp [parameterEntries, Symbol.parameter, Declaration.parameterNames]
  have hframe : (⟨(parameterEntries d.parameters).map Prod.fst⟩ : Scope) = d.frame := by
    simp [parameterEntries, Declaration.frame]
  rw [declareParameters_eq_ok_iff hs]
  simp only [Scope.declareAll_empty_eq_ok_iff, hnames, hframe]
  constructor
  · rintro ⟨_, ⟨hnodup, rfl⟩, rfl⟩
    exact ⟨hnodup, rfl⟩
  · rintro ⟨hnodup, rfl⟩
    exact ⟨_, ⟨hnodup, rfl⟩, rfl⟩

/-- What the checker reads back from the frame of a function are the parameters it declares. -/
theorem parameters_frame (d : Declaration) : d.frame.parameters = d.inputs := by
  unfold Scope.parameters Declaration.frame Declaration.inputs
  rw [List.map_map]
  rfl

/-- In the frame of a function its type is the declared one. -/
theorem record_of_frame {global : Scope} {outer : List Scope} {d : Declaration} {s : State}
    (hs : s.scopes = ⟨global, d.frame :: outer⟩) : record d s = assign d d.signature s := by
  change assign d (.function s.scopes.current.parameters d.output) s = _
  have hcurrent : s.scopes.current = d.frame := by
    rw [hs]
    rfl
  rw [hcurrent, parameters_frame]
  rfl

/-- What happens in a frame is told by what happens where the innermost scope is empty. -/
theorem inFrame_congr {step twin : Check Unit}
    (h : ∀ global t, t.scopes = ⟨global, [.empty]⟩ → step t = twin t) :
    inFrame step = inFrame twin := by
  funext s
  have hinside := h s.scopes.global { s with scopes := s.scopes.enterFrame.2 } rfl
  unfold inFrame
  simp only [hinside]

/-- A function visited in a frame of its own is given the type that it declares. -/
theorem inFrame_visitBody (visit : Declaration → Check Unit) (d : Declaration) :
    inFrame (visitBody visit d) = inFrame (do
      declareParameters d.parameters
      assign d d.signature
      let received ← inferBody visit d.body
      if received.agrees d.output then return ()
      else throw (mismatch d.output received d.body.span.start)) := by
  refine inFrame_congr fun global t ht => ?_
  change EStateM.bind (declareParameters d.parameters) _ t =
    EStateM.bind (declareParameters d.parameters) _ t
  unfold EStateM.bind
  cases hdeclared : declareParameters d.parameters t with
  | error fault u => rfl
  | ok _ u =>
    obtain ⟨_, rfl⟩ := (declareParameters_empty_eq_ok_iff ht d).mp hdeclared
    change EStateM.bind (record d) _ _ = EStateM.bind (assign d d.signature) _ _
    unfold EStateM.bind
    rw [record_of_frame rfl]

section Program

variable {p : Program} {d : Declaration} {resolved : List String}

theorem assign_eq (hp : p.names.Nodup) (hd : d ∈ p.declarations) {locals : List Scope}
    {s : State} (hs : s.scopes = ⟨p.globals resolved, locals⟩) :
    assign d d.signature s =
      .ok () ⟨⟨p.globals (d.name :: resolved), locals⟩, d.name :: s.visited⟩ := by
  have hstep : assign d d.signature s = .ok ()
      ⟨{ s.scopes with global := s.scopes.global.modify d.name fun symbol =>
          { symbol with type := d.signature } }, d.name :: s.visited⟩ := rfl
  rw [hstep, hs, Program.modify_globals hp hd]

/-- A function of a program has its type from its frame on. -/
theorem record_eq (hp : p.names.Nodup) (hd : d ∈ p.declarations) {outer : List Scope}
    {s : State} (hs : s.scopes = ⟨p.globals resolved, d.frame :: outer⟩) :
    record d s =
      .ok () ⟨⟨p.globals (d.name :: resolved), d.frame :: outer⟩, d.name :: s.visited⟩ :=
  (record_of_frame hs).trans (assign_eq hp hd hs)

/-- A body is typed in the frame of its function, where the function itself has its type. -/
theorem visitBody_eq_ok_iff (hp : p.names.Nodup) (hd : d ∈ p.declarations) {s t : State}
    (hs : s.scopes = ⟨p.globals resolved, [.empty]⟩) (visit : Declaration → Check Unit) :
    visitBody visit d s = .ok () t ↔ d.parameterNames.Nodup ∧ ∃ type,
      inferBody visit d.body
          ⟨⟨p.globals (d.name :: resolved), [d.frame]⟩, d.name :: s.visited⟩ = .ok type t ∧
        type.agrees d.output = true := by
  have hstep : visitBody visit d s = EStateM.bind (declareParameters d.parameters) (fun _ =>
      EStateM.bind (record d) fun _ => EStateM.bind (inferBody visit d.body) fun received =>
        if received.agrees d.output then pure ()
        else throw (mismatch d.output received d.body.span.start)) s := rfl
  rw [hstep]
  unfold EStateM.bind
  cases hparameters : declareParameters d.parameters s with
  | error fault u =>
    constructor
    · intro h; cases h
    · rintro ⟨hnodup, _⟩
      rw [(declareParameters_empty_eq_ok_iff hs d).mpr ⟨hnodup, rfl⟩] at hparameters
      cases hparameters
  | ok _ u =>
    obtain ⟨hnodup, rfl⟩ := (declareParameters_empty_eq_ok_iff hs d).mp hparameters
    simp only [record_eq hp hd (s := { s with scopes := ⟨p.globals resolved, [d.frame]⟩ }) rfl]
    simp only [hnodup, true_and]
    cases inferBody visit d.body _ with
    | error fault v => simp
    | ok received v =>
      simp only [EStateM.Result.ok.injEq]
      constructor
      · intro h
        split at h
        · rename_i hagrees
          cases h
          exact ⟨received, ⟨rfl, rfl⟩, hagrees⟩
        · cases h
      · rintro ⟨_, ⟨rfl, rfl⟩, hagrees⟩
        rw [if_pos hagrees]
        rfl

theorem get_bind {α : Type} (next : State → Check α) (s : State) : (get >>= next) s = next s s :=
  rfl

/-- Nothing is done for a function that has its type. -/
theorem unlessResolved_of_mem (hp : p.names.Nodup) (hd : d ∈ p.declarations)
    {locals : List Scope} {s : State} (hs : s.scopes = ⟨p.globals resolved, locals⟩)
    (hmem : d.name ∈ resolved) (step : Check Unit) : unlessResolved d step s = .ok () s := by
  have hget : s.scopes.global.get? d.name = some (.ofSignature d) := by
    rw [hs, Program.get?_globals, Program.find?_of_mem hp hd, Option.map_some, if_pos hmem]
  unfold unlessResolved
  rw [get_bind, hget]
  rfl

theorem unlessResolved_of_not_mem (hp : p.names.Nodup) (hd : d ∈ p.declarations)
    {locals : List Scope} {s : State} (hs : s.scopes = ⟨p.globals resolved, locals⟩)
    (hnew : d.name ∉ resolved) (step : Check Unit) : unlessResolved d step s = step s := by
  have hget : s.scopes.global.get? d.name = some (.ofDeclaration d) := by
    rw [hs, Program.get?_globals, Program.find?_of_mem hp hd, Option.map_some, if_neg hnew]
  unfold unlessResolved
  rw [get_bind, hget]
  rfl

theorem inFrame_eq_ok_iff {global : Scope} {locals : List Scope} {s t : State} {step : Check Unit}
    (hs : s.scopes = ⟨global, locals⟩) :
    inFrame step s = .ok () t ↔ ∃ u, step { s with scopes := ⟨global, [.empty]⟩ } = .ok () u ∧
      t = { u with scopes := ⟨u.scopes.global, locals⟩ } := by
  unfold inFrame
  rw [hs]
  simp only [Scopes.enterFrame, Scopes.leaveFrame]
  cases step { s with scopes := ⟨global, [.empty]⟩ } with
  | error fault u => simp
  | ok _ u => simp [eq_comm]

end Program

end Piecewise.Typing
