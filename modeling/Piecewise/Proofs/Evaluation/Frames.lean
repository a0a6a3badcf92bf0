import Piecewise.Evaluation.Expr
import Piecewise.Proofs.Typing.Rules

/-!
# Frames of calls

The frame of a call has a symbol for each parameter of its function, in order, whether or not
there is a value for it. So a name means in the frame what it means in the environment in which
the body of the function was typed: a parameter, with a value that fits, or a function.
-/

namespace Piecewise

namespace Evaluation

open Typing

/-- The symbols of parameters, with the values that there are. A function is never bound. -/
def boundSymbols : List Param → List Value → List Symbol
  | [], _ => []
  | q :: rest, values =>
    { Symbol.parameter q.name q.type.toTy with
      value := values.head?.filter fun v => !v.isFunction } :: boundSymbols rest values.tail

theorem bindIn_parameters (qs : List Param) (values : List Value) :
    Scope.bindIn (qs.map fun q => .parameter q.name q.type.toTy) values =
      boundSymbols qs values := by
  induction qs generalizing values with
  | nil => rfl
  | cons q qs ih =>
    cases values with
    | nil =>
      have hrest : qs.map (fun q => Symbol.parameter q.name q.type.toTy) = boundSymbols qs [] := by
        rw [← ih [], Scope.bindIn_nil]
      rw [Scope.bindIn_nil, List.map_cons, hrest]
      rfl
    | cons v values =>
      have hsymbol : (Symbol.parameter q.name q.type.toTy).bind v =
          { Symbol.parameter q.name q.type.toTy with
            value := (some v).filter fun v => !v.isFunction } := by
        unfold Symbol.bind
        rw [Option.filter_some]
        cases v.isFunction <;> rfl
      rw [List.map_cons, Scope.bindIn, boundSymbols, ih, hsymbol]
      rfl

/-- Parameters of names that are new and different can be declared. The induction is over all frames
that have none of the names yet, as symbols are added at the end of a frame. -/
theorem declareParameters_eq {global : Scope} {outer : List Scope} : ∀ {qs : List Param}
    {frame : Scope} {s : State}, s.scopes = ⟨global, frame :: outer⟩ →
    (qs.map Param.name).Nodup → (∀ q ∈ qs, q.name ∉ frame.names) →
    declareParameters qs s = .ok () { s with
      scopes := ⟨global,
        ⟨frame.symbols ++ qs.map fun q => .parameter q.name q.type.toTy⟩ :: outer⟩ } := by
  intro qs
  induction qs with
  | nil =>
    intro frame s hs _ _
    rw [List.map_nil, List.append_nil, ← hs]
    rfl
  | cons q qs ih =>
    intro frame s hs hnodup hnew
    rw [List.map_cons, List.nodup_cons] at hnodup
    let symbol : Symbol := .parameter q.name q.type.toTy
    have hdeclare : s.scopes.declare symbol q.span.start =
        .ok ⟨global, ⟨frame.symbols ++ [symbol]⟩ :: outer⟩ := by
      rw [hs, Scopes.declare_frame]
      rw [Scope.declare_eq_ok_iff.mpr ⟨hnew q List.mem_cons_self, rfl⟩]
      rfl
    have hstep : declareParameters (q :: qs) s =
        EStateM.bind (lift (s.scopes.declare symbol q.span.start))
          (fun scopes _ => declareParameters qs { s with scopes }) s := rfl
    rw [hstep, hdeclare]
    change declareParameters qs _ = _
    rw [ih rfl hnodup.2 ?_, List.append_assoc]
    · rfl
    · intro r hr
      rw [Scope.names_append, List.mem_append, List.mem_singleton]
      rintro (htaken | hsame)
      · exact hnew r (List.mem_cons_of_mem _ hr) htaken
      · exact hnodup.1 (List.mem_map.mpr ⟨r, hr, hsame⟩)

/-- Parameters of different names can be bound in a frame of their own, whatever the values. -/
theorem bindParameters_eq {global : Scope} {outer : List Scope} {qs : List Param}
    {values : List Value} {s : State} (hs : s.scopes = ⟨global, .empty :: outer⟩)
    (hnodup : (qs.map Param.name).Nodup) :
    bindParameters qs values s =
      .ok () { s with scopes := ⟨global, ⟨boundSymbols qs values⟩ :: outer⟩ } := by
  change EStateM.bind (declareParameters qs) _ s = _
  unfold EStateM.bind
  rw [declareParameters_eq hs hnodup (fun q _ hq => by cases hq), ← bindIn_parameters]
  rfl

/-- A symbol for a parameter: a value that it has is as described, and that it has none is
possible only under a condition. -/
structure Slot (fits : Value → Ty → Prop) (unbound : Prop) (input : Parameter Ty)
    (symbol : Symbol) : Prop where
  name : symbol.name = input.name
  type : symbol.type = input.type
  role : symbol.role = .parameter
  fitting : ∀ v, symbol.value = some v → fits v input.type
  missing : symbol.value = none → unbound

def BoundFrame (fits : Value → Ty → Prop) (unbound : Prop) (d : Declaration)
    (frame : Scope) : Prop :=
  List.Forall₂ (Slot fits unbound) d.inputs frame.symbols

variable {fits : Value → Ty → Prop} {unbound : Prop}

theorem Slot.declaration? {input : Parameter Ty} {symbol : Symbol}
    (h : Slot fits unbound input symbol) : symbol.declaration? = none := by
  unfold Symbol.declaration?
  rw [h.role]

/-- Values that fit the parameters make a frame. -/
theorem boundFrame_of_values {d : Declaration} {values : List Value}
    (hvalues : List.Forall₂ (fun v input => fits v input.type) values d.inputs)
    (hfunction : ∀ f type, fits (.function f) type → unbound) :
    BoundFrame fits unbound d ⟨boundSymbols d.parameters values⟩ := by
  unfold BoundFrame
  unfold Declaration.inputs at *
  generalize d.parameters = qs at *
  induction qs generalizing values with
  | nil => exact .nil
  | cons q qs ih =>
    cases hvalues with
    | cons hfirst hrest =>
      rename_i v values
      refine .cons ⟨rfl, rfl, rfl, fun w hw => ?_, fun hnone => ?_⟩ (ih hrest)
      · change (some v).filter (fun v => !v.isFunction) = some w at hw
        have hvw : v = w := Option.some.inj (Option.filter_eq_some_iff.mp hw).1
        exact hvw ▸ hfirst
      · cases v with
        | function f => exact hfunction f _ hfirst
        | boolean | real | text | list | type => cases hnone

/-- Without values the parameters still make a frame, where they may be without. -/
theorem boundFrame_of_unbound {d : Declaration} (h : d.parameters ≠ [] → unbound) :
    BoundFrame fits unbound d ⟨boundSymbols d.parameters []⟩ := by
  unfold BoundFrame
  unfold Declaration.inputs
  generalize d.parameters = qs at *
  induction qs with
  | nil => exact .nil
  | cons q qs ih =>
    have hunbound : unbound := h (List.cons_ne_nil q qs)
    refine .cons ⟨rfl, rfl, rfl, fun w hw => ?_, fun _ => hunbound⟩ (ih fun _ => hunbound)
    cases hw

section Lookup

variable {p : Program} {d : Declaration} {frame : Scope} {name : String}

theorem find?_slots {inputs : List (Parameter Ty)} {symbols : List Symbol}
    (h : List.Forall₂ (Slot fits unbound) inputs symbols) (name : String) :
    Option.Rel (Slot fits unbound) (inputs.find? fun input => input.name = name)
      (symbols.find? fun symbol => symbol.name = name) := by
  induction h with
  | nil => exact .none
  | cons hslot _ ih =>
    rw [List.find?_cons, List.find?_cons, hslot.name]
    split
    · exact .some hslot
    · exact ih

/-- A parameter has a symbol of its own in the frame. -/
theorem resolve?_parameter (hframe : BoundFrame fits unbound d frame) {type : Ty}
    (h : (environment p d).lookup name = some (.parameter type)) :
    ∃ symbol, (⟨p.signatures, [frame]⟩ : Scopes).resolve? name = some symbol ∧
      Slot fits unbound ⟨name, type⟩ symbol := by
  have hparameter : (environment p d).parameter? name = some type := by
    unfold Environment.lookup at h
    split at h
    · rename_i found hfound
      cases h
      exact hfound
    · obtain ⟨f, _, hf⟩ := Option.map_eq_some_iff.mp h
      cases hf
  obtain ⟨input, hinput, rfl⟩ := Option.map_eq_some_iff.mp hparameter
  have hname : input.name = name := by simpa using List.find?_some hinput
  have hslot := find?_slots hframe name
  have hfound : d.inputs.find? (fun input => input.name = name) = some input := hinput
  rw [hfound] at hslot
  rw [Scopes.resolve?_frame, Scope.get?]
  cases hsymbol : frame.symbols.find? fun symbol => symbol.name = name with
  | none => rw [hsymbol] at hslot; cases hslot
  | some symbol =>
    rw [hsymbol] at hslot
    cases hslot with
    | some h => exact ⟨symbol, rfl, hname ▸ h⟩

/-- A function has its symbol in the global scope, and the frame does not hide it. -/
theorem resolve?_function (hframe : BoundFrame fits unbound d frame) {f : Declaration}
    (h : (environment p d).lookup name = some (.function f)) :
    f ∈ p.declarations ∧
      (⟨p.signatures, [frame]⟩ : Scopes).resolve? name = some (.ofSignature f) := by
  unfold Environment.lookup at h
  split at h
  · cases h
  · rename_i hnone
    obtain ⟨g, hg, heq⟩ := Option.map_eq_some_iff.mp h
    cases heq
    have hfind : p.find? name = some f := hg
    obtain ⟨hmem, hname⟩ := Program.mem_of_find? hfind
    have hslot := find?_slots hframe name
    have habsent : d.inputs.find? (fun input => input.name = name) = none := by
      simpa [Environment.parameter?, environment] using hnone
    rw [habsent] at hslot
    refine ⟨hmem, ?_⟩
    rw [Scopes.resolve?_frame, Program.signatures_eq_globals, Program.get?_globals,
      hfind, Scope.get?]
    cases hsymbol : frame.symbols.find? fun symbol => symbol.name = name with
    | some symbol => rw [hsymbol] at hslot; cases hslot
    | none =>
      have hknown : name ∈ p.names := hname ▸ List.mem_map_of_mem hmem
      exact congrArg some (if_pos hknown)

end Lookup

end Evaluation

end Piecewise
