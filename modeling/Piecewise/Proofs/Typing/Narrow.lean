import Piecewise.Proofs.Typing.Checks

/-!
# Stricter rules

A typing by some rules is one by stricter rules where the program gives no occasion to use what
the stricter rules leave out: no function is used as a value, and every call has arguments that
the stricter rules accept too.
-/

namespace Piecewise.Typing

variable {R R' : Rules} {Γ : Environment}

/-- What an expression, or a list of them, must keep to for stricter rules: of the names used as
values those that stand for functions may be so used, and where arguments are accepted by the
first rules they are by the second. -/
structure Narrows (R R' : Rules) (Γ : Environment) (names : List String)
    (calls : List CallSite) : Prop where
  values : ∀ name ∈ names, ∀ f, Γ.lookup name = some (.function f) → R'.functionValues
  arguments : ∀ c ∈ calls, ∀ meaning inputs output types, Γ.lookup c.callee = some meaning →
    meaning.type = .function inputs output → HaveTypes R Γ c.arguments types →
    List.Forall₂ (fun input type => R.accepts input.type type) inputs types →
    List.Forall₂ (fun input type => R'.accepts input.type type) inputs types

theorem Narrows.append {first second : List String} {calls calls' : List CallSite}
    (h : Narrows R R' Γ (first ++ second) (calls ++ calls')) :
    Narrows R R' Γ first calls ∧ Narrows R R' Γ second calls' :=
  ⟨⟨fun name hname => h.values name (List.mem_append_left _ hname),
      fun c hc => h.arguments c (List.mem_append_left _ hc)⟩,
    ⟨fun name hname => h.values name (List.mem_append_right _ hname),
      fun c hc => h.arguments c (List.mem_append_right _ hc)⟩⟩

mutual

theorem HasType.narrow : ∀ {e : Expr} {type : Ty}, HasType R Γ e type →
    Narrows R R' Γ e.identifiers e.calls → HasType R' Γ e type
  | .boolean _ _, _, h, _ => by cases h; exact .boolean
  | .number _ _, _, h, _ => by cases h; exact .number
  | .text _ _, _, h, _ => by cases h; exact .text
  | .identifier _ name, _, h, hn => by
    cases h with
    | parameter found => exact .parameter found
    | function allowed found shown =>
      exact .function (hn.values name List.mem_cons_self _ found) found shown
  | .call _ callee arguments, _, h, hn => by
    cases h with
    | call found signature typed accepted =>
      have hinner : Narrows R R' Γ (Expr.identifiersAll arguments) (Expr.callsAll arguments) :=
        ⟨hn.values, fun c hc => hn.arguments c (List.mem_cons_of_mem _ hc)⟩
      exact .call found signature (typed.narrow hinner)
        (hn.arguments ⟨callee, arguments⟩ List.mem_cons_self _ _ _ _ found signature typed
          accepted)
  | .unary _ .not operand, _, h, hn => by
    cases h with
    | not typed => exact .not (typed.narrow hn)
  | .unary _ .negate operand, _, h, hn => by
    cases h with
    | negate typed => exact .negate (typed.narrow hn)
  | .binary _ op left right, _, h, hn => by
    obtain ⟨hleft, hright⟩ := hn.append
    cases h with
    | and first second => exact .and (first.narrow hleft) (second.narrow hright)
    | or first second => exact .or (first.narrow hleft) (second.narrow hright)
    | arithmetic first second => exact .arithmetic (first.narrow hleft) (second.narrow hright)
    | compare first second => exact .compare (first.narrow hleft) (second.narrow hright)
    | equals first second same => exact .equals (first.narrow hleft) (second.narrow hright) same
    | concat first second joined =>
      exact .concat (first.narrow hleft) (second.narrow hright) joined
  | .conditional _ condition whenTrue whenFalse, _, h, hn => by
    obtain ⟨hcondition, hbranches⟩ := hn.append
    obtain ⟨htrue, hfalse⟩ := hbranches.append
    cases h with
    | conditional guard first second joined =>
      exact .conditional (guard.narrow hcondition) (first.narrow htrue) (second.narrow hfalse)
        joined
  | .list _ elements, _, h, hn => by
    cases h with
    | empty => exact .empty
    | list typed joined => exact .list (typed.narrow hn) joined

theorem HaveTypes.narrow : ∀ {es : List Expr} {types : List Ty}, HaveTypes R Γ es types →
    Narrows R R' Γ (Expr.identifiersAll es) (Expr.callsAll es) → HaveTypes R' Γ es types
  | [], _, h, _ => by cases h; exact .nil
  | e :: rest, _, h, hn => by
    obtain ⟨hfirst, hrest⟩ := hn.append
    cases h with
    | cons first others => exact .cons (first.narrow hfirst) (others.narrow hrest)

end

theorem BranchesHaveTypes.narrow {branches : List Branch} {types : List Ty}
    (h : BranchesHaveTypes R Γ branches types)
    (hn : ∀ branch ∈ branches, Narrows R R' Γ branch.guard.identifiers branch.guard.calls ∧
      Narrows R R' Γ branch.action.identifiers branch.action.calls) :
    BranchesHaveTypes R' Γ branches types := by
  induction h with
  | nil => exact .nil
  | cons guard action _ ih =>
    obtain ⟨hguard, haction⟩ := hn _ List.mem_cons_self
    exact .cons (guard.narrow hguard) (action.narrow haction)
      (ih fun branch hb => hn branch (List.mem_cons_of_mem _ hb))

/-- A body typed by some rules is typed by stricter ones that it narrows to. -/
theorem BodyHasType.narrow {body : Body} {type : Ty} (h : BodyHasType R Γ body type)
    (hn : Narrows R R' Γ body.identifiers body.calls) : BodyHasType R' Γ body type := by
  have hpart : ∀ e ∈ body.parts, Narrows R R' Γ e.identifiers e.calls := fun e he =>
    ⟨fun name hname => hn.values name (List.mem_flatMap_of_mem he hname),
      fun c hc => hn.arguments c (List.mem_flatMap_of_mem he hc)⟩
  cases h with
  | inline typed => exact .inline (typed.narrow (hpart _ List.mem_cons_self))
  | piecewise guarded typed joined =>
    refine .piecewise (guarded.narrow fun branch hb => ⟨?_, ?_⟩) (typed.narrow ?_) joined
    · exact hpart _ (List.mem_append_left _
        (List.mem_flatMap_of_mem hb List.mem_cons_self))
    · exact hpart _ (List.mem_append_left _
        (List.mem_flatMap_of_mem hb (List.mem_cons_of_mem _ List.mem_cons_self)))
    · exact hpart _ (List.mem_append_right _ List.mem_cons_self)

theorem WellTyped.narrow {p : Program} {d : Declaration} (h : WellTyped R p d)
    (hn : Narrows R R' (environment p d) d.body.identifiers d.body.calls) :
    WellTyped R' p d := by
  obtain ⟨type, hbody, hagrees⟩ := h.body
  exact ⟨h.distinct, type, hbody.narrow hn, hagrees⟩

/-- In a program that only calls its functions no body uses one as a value. -/
theorem narrows_of_onlyCallsFunctions {p : Program} (hcalls : p.OnlyCallsFunctions)
    {d : Declaration} (hd : d ∈ p.declarations) :
    Narrows checkerRules callRules (environment p d) d.body.identifiers d.body.calls := by
  refine ⟨fun name hname f hlookup => ?_, fun _ _ _ _ _ _ _ _ _ haccepted => haccepted⟩
  rcases hcalls d hd name hname with hparameter | hnone
  · obtain ⟨type, htype⟩ := (mem_parameterNames_iff (p := p)).mp hparameter
    rw [hlookup] at htype
    cases htype
  · obtain ⟨hf, hfname⟩ := mem_of_lookup hlookup
    exact absurd (hfname ▸ List.mem_map_of_mem hf) hnone

theorem wellTyped_callRules {p : Program} (hcalls : p.OnlyCallsFunctions)
    (htyped : ∀ d ∈ p.declarations, WellTyped checkerRules p d) :
    ∀ d ∈ p.declarations, WellTyped callRules p d := by
  intro d hd
  exact (htyped d hd).narrow (narrows_of_onlyCallsFunctions hcalls hd)

end Piecewise.Typing
