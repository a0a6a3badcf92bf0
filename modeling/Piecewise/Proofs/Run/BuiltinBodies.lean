import Piecewise.Proofs.Evaluation.InStep
import Piecewise.Proofs.Typing.Sound

/-!
# Bodies of builtins

A builtin has a body in the program that declares it, and the checker looks at it, but a run never
does. So programs that differ in such bodies only cannot be told apart by running any function that
is no builtin itself, although values of functions carry the different declarations around.
-/

namespace Piecewise

/-- Declarations that are the same, or of one builtin with different bodies. -/
inductive Declaration.SameButBuiltinBody : Declaration → Declaration → Prop
  | same (d : Declaration) : SameButBuiltinBody d d
  | builtin {d : Declaration} (h : Builtin.ofName? d.name ≠ none) (body : Body) (span : Span) :
      SameButBuiltinBody d { d with body, span }

def Program.SameButBuiltinBodies (p q : Program) : Prop :=
  List.Forall₂ Declaration.SameButBuiltinBody p.declarations q.declarations

namespace Evaluation

/-- Runs that show the same value or end in the same fault, after the same calls. -/
inductive SameShown :
    EStateM.Result Halt State Value → EStateM.Result Halt State Value → Prop
  | value {v w : Value} {t u : State} (shown : w.shown = v.shown) (calls : u.calls = t.calls) :
      SameShown (.ok v t) (.ok w u)
  | halt {halt : Halt} {t u : State} (calls : u.calls = t.calls) :
      SameShown (.error halt t) (.error halt u)

end Evaluation

namespace Declaration.SameButBuiltinBody

variable {d e : Declaration}

theorem calledAlike (h : SameButBuiltinBody d e) : d.CalledAlike e := by
  cases h with
  | same => exact .refl d
  | builtin h body span => exact ⟨rfl, rfl, rfl, fun hnone => absurd hnone h⟩

theorem ofSignature (h : SameButBuiltinBody d e) {lists : Nat → Nat → Prop} :
    Symbol.Paired lists SameButBuiltinBody (.ofSignature d) (.ofSignature e) := by
  have htype : e.signature = d.signature := by cases h <;> rfl
  exact ⟨h.calledAlike.name, htype, .some h, .none⟩

theorem eq_of_not_builtin (h : SameButBuiltinBody d e) (hname : Builtin.ofName? d.name = none) :
    e = d := by
  cases h with
  | same => rfl
  | builtin h body span => exact absurd hname h

end Declaration.SameButBuiltinBody

namespace Program.SameButBuiltinBodies

variable {p q : Program}

theorem mem (h : p.SameButBuiltinBodies q) {d : Declaration} (hd : d ∈ p.declarations)
    (hname : Builtin.ofName? d.name = none) : d ∈ q.declarations := by
  unfold Program.SameButBuiltinBodies at h
  generalize p.declarations = ds at h hd
  generalize q.declarations = es at h
  induction h with
  | nil => cases hd
  | cons hfirst _ ih =>
    cases hd with
    | head => exact hfirst.eq_of_not_builtin hname ▸ List.mem_cons_self
    | tail _ hrest => exact List.mem_cons_of_mem _ (ih hrest)

theorem signatures (h : p.SameButBuiltinBodies q) {lists : Nat → Nat → Prop} :
    Scope.Paired lists Declaration.SameButBuiltinBody p.signatures q.signatures :=
  List.forall₂_map_left_iff.mpr <| List.forall₂_map_right_iff.mpr <|
    h.imp fun _ _ hde => hde.ofSignature

end Program.SameButBuiltinBodies

namespace Evaluation

/-- Lists stand for themselves, and builtins with different bodies for each other. -/
def anyBuiltinBodies : Pairing :=
  .inPlace Declaration.SameButBuiltinBody Declaration.SameButBuiltinBody.calledAlike

theorem sameShown_of_pairedEnds {s t : State} (hcalls : s.calls = t.calls)
    {outcome outcome' : EStateM.Result Halt State Value}
    (h : PairedEnds anyBuiltinBodies.Values s t outcome outcome') : SameShown outcome outcome' := by
  cases h with
  | ok advance hvalue =>
    obtain ⟨names, hs, ht⟩ := advance.calls
    have hname : ∀ d e, anyBuiltinBodies.functions d e → e.name = d.name :=
      fun d e hde => (anyBuiltinBodies.calledAlike hde).name
    exact .value (Value.shown_paired hname hvalue) (by rw [hs, ht, hcalls])
  | error advance =>
    obtain ⟨names, hs, ht⟩ := advance.calls
    exact .halt (by rw [hs, ht, hcalls])

/-- The bodies of builtins are never run: accepted programs that differ in them only run every other
function with the same outcome. -/
theorem builtin_bodies_never_run {p q : Program} (h : p.SameButBuiltinBodies q)
    {checked checked' : Scopes} (hp : p.Accepted checked) (hq : q.Accepted checked')
    {d : Declaration} (hd : d ∈ p.declarations) (hname : Builtin.ofName? d.name = none)
    (mode : ListEquality) (depth : Nat) :
    d ∈ q.declarations ∧
      SameShown (runEntry mode depth d (.initial checked))
        (runEntry mode depth d (.initial checked')) := by
  obtain ⟨_, rfl, _⟩ := Typing.typed_of_accepted hp
  obtain ⟨_, rfl, _⟩ := Typing.typed_of_accepted hq
  have hstates : PairedStates anyBuiltinBodies 0 (.initial ⟨p.signatures, []⟩)
      (.initial ⟨q.signatures, []⟩) := ⟨rfl, rfl, ⟨h.signatures, .nil⟩⟩
  have hend := runEntry_inStep anyBuiltinBodies mode depth d 0 _ _ hstates
  have hcalls : (State.initial ⟨p.signatures, []⟩).calls =
      (State.initial ⟨q.signatures, []⟩).calls := rfl
  exact ⟨h.mem hd hname, sameShown_of_pairedEnds hcalls hend⟩

/-- `head(xs: [bool]) -> bool`, with any body. -/
def headWith (body : Expr) : Declaration where
  number := 0
  name := "head"
  parameters := [⟨"xs", .list default (.primitive default .bool), default⟩]
  returns := .primitive default .bool
  body := .inline body
  span := default

/-- `main() -> bool = head([false])`. -/
def headOfFalse : Declaration where
  number := 1
  name := "main"
  parameters := []
  returns := .primitive default .bool
  body := .inline (.call default "head" [.list default [.boolean default false]])
  span := default

def headProgram (body : Expr) : Program := ⟨[headWith body, headOfFalse], default⟩

/-- A `head` that would give `true` and one that would call itself without end. -/
theorem builtin_bodies_never_run_headProgram :
    let constant := headProgram (.boolean default true)
    let endless := headProgram (.call default "head" [.identifier default "xs"])
    constant.Accepted ⟨constant.signatures, []⟩ ∧ endless.Accepted ⟨endless.signatures, []⟩ ∧
      runEntry .structural 1 headOfFalse (.initial ⟨constant.signatures, []⟩) =
        .ok (.boolean false) ⟨⟨constant.signatures, []⟩, ["head"], 2⟩ ∧
      SameShown (runEntry .structural 1 headOfFalse (.initial ⟨constant.signatures, []⟩))
        (runEntry .structural 1 headOfFalse (.initial ⟨endless.signatures, []⟩)) := by
  intro constant endless
  have hconstant : constant.Accepted ⟨constant.signatures, []⟩ := by decide +kernel
  have hendless : endless.Accepted ⟨endless.signatures, []⟩ := by decide +kernel
  have hsame : constant.SameButBuiltinBodies endless :=
    .cons (.builtin (by decide) _ _) (.cons (.same _) .nil)
  have hentry : headOfFalse ∈ constant.declarations := List.mem_cons_of_mem _ List.mem_cons_self
  have hruns := builtin_bodies_never_run hsame hconstant hendless hentry rfl .structural 1
  exact ⟨hconstant, hendless, rfl, hruns.2⟩

end Evaluation

end Piecewise
