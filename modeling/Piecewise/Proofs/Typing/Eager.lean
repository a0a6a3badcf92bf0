import Piecewise.Proofs.Typing.Complete
import Piecewise.Proofs.Typing.Narrow
import Piecewise.Proofs.Typing.Sound

/-!
# Checking every function on its own

Functions are visited in the middle of one another, in the order in which calls need them. Where
functions are only called, that order does not show: a program is accepted exactly where each
function passes on its own, all of them having the types they are declared with from the start.
-/

namespace Piecewise.Typing

variable {p : Program} {d : Declaration}

/-- A function that passes on its own. Its parameters have different names, and its body, checked
in the frame of these parameters where every function has its type, agrees with its own type. -/
structure EagerlyAccepted (p : Program) (d : Declaration) : Prop where
  distinct : d.parameterNames.Nodup
  body : ∃ type s, typeOfBody d.body (.initial ⟨p.signatures, [d.frame]⟩) = .ok type s ∧
    type.agrees d.output = true

theorem typeOfBody_eq (s : State) (body : Body) :
    typeOfBody body s = inferBody (visitWithin s.scopes.pending) body s := rfl

theorem eagerlyAccepted_of_wellTyped (hp : p.names.Nodup)
    (htyped : ∀ d ∈ p.declarations, WellTyped callRules p d) (hd : d ∈ p.declarations) :
    EagerlyAccepted p d := by
  obtain ⟨type, hbody, hagrees⟩ := (htyped d hd).body
  obtain ⟨t, hstep⟩ :=
    (inferBody_complete (visitWithin_complete hp htyped _) hbody).of_signatures
  exact ⟨(htyped d hd).distinct, type, t, hstep, hagrees⟩

theorem wellTyped_of_eagerlyAccepted (hp : p.names.Nodup) (hcalls : p.OnlyCallsFunctions)
    (hd : d ∈ p.declarations) (h : EagerlyAccepted p d) : WellTyped callRules p d := by
  obtain ⟨type, t, hstep, hagrees⟩ := h.body
  rw [typeOfBody_eq] at hstep
  have hscopes : (State.initial ⟨p.signatures, [d.frame]⟩).scopes =
      ⟨p.globals p.names, [d.frame]⟩ := by
    rw [← Program.signatures_eq_globals]
    rfl
  obtain ⟨_, _, _, hbody⟩ :=
    inferBody_sound (soundVisits_visitWithin hp _ _) d.body _ _ type t hscopes hstep
  exact ⟨h.distinct, type, hbody.narrow (narrows_of_onlyCallsFunctions hcalls hd), hagrees⟩

/-- A program whose functions have different names and are only called passes the checker exactly
where each function passes on its own. Then every function has the type it is declared with. -/
theorem check_iff_eagerlyAccepted (hp : p.names.Nodup) (hcalls : p.OnlyCallsFunctions) :
    ∃ declared, Scopes.ofProgram p = .ok declared ∧
      ((∃ checked, p.check declared = .ok checked) ↔
        ∀ d ∈ p.declarations, EagerlyAccepted p d) ∧
      ∀ checked, p.check declared = .ok checked → checked = ⟨p.signatures, []⟩ := by
  have hdeclared : Scopes.ofProgram p = .ok ⟨p.globals [], []⟩ :=
    Scopes.ofProgram_eq_ok_iff.mpr ⟨hp, rfl⟩
  refine ⟨_, hdeclared, ⟨?_, ?_⟩, ?_⟩
  · rintro ⟨checked, hchecked⟩
    obtain ⟨_, _, htyped⟩ := typed_of_accepted ⟨_, hdeclared, hchecked⟩
    intro d hd
    exact eagerlyAccepted_of_wellTyped hp (wellTyped_callRules hcalls htyped) hd
  · intro heager
    have htyped : ∀ d ∈ p.declarations, WellTyped callRules p d := fun d hd =>
      wellTyped_of_eagerlyAccepted hp hcalls hd (heager d hd)
    obtain ⟨t, ht⟩ := visitAll_complete hp htyped p.declarations (fun _ hd => hd)
      (s := .initial ⟨p.globals [], []⟩) rfl
    refine ⟨t.scopes, ?_⟩
    have hstep : checkProgram p (.initial ⟨p.globals [], []⟩) = .ok () t := ht
    rw [Program.check, hstep]
  · intro checked hchecked
    exact (typed_of_accepted ⟨_, hdeclared, hchecked⟩).2.1

/-- `even(xs: [bool]) -> bool = if xs == [] then true else odd(tail(xs))`. -/
def evenLength : Declaration where
  number := 0
  name := "even"
  parameters := [⟨"xs", .list default (.primitive default .bool), default⟩]
  returns := .primitive default .bool
  body := .inline (.conditional default
    (.binary default .equals (.identifier default "xs") (.list default []))
    (.boolean default true)
    (.call default "odd" [.call default "tail" [.identifier default "xs"]]))
  span := default

/-- `odd(xs: [bool]) -> bool = if xs == [] then false else even(tail(xs))`. -/
def oddLength : Declaration where
  number := 1
  name := "odd"
  parameters := [⟨"xs", .list default (.primitive default .bool), default⟩]
  returns := .primitive default .bool
  body := .inline (.conditional default
    (.binary default .equals (.identifier default "xs") (.list default []))
    (.boolean default false)
    (.call default "even" [.call default "tail" [.identifier default "xs"]]))
  span := default

/-- `tail(xs: [bool]) -> [bool] = xs`. -/
def tailOfBooleans : Declaration where
  number := 2
  name := "tail"
  parameters := [⟨"xs", .list default (.primitive default .bool), default⟩]
  returns := .list default (.primitive default .bool)
  body := .inline (.identifier default "xs")
  span := default

/-- Two functions that call each other, and what both of them call after them. -/
def parityProgram : Program := ⟨[evenLength, oddLength, tailOfBooleans], default⟩

/-- The checker accepts the program, so each of its functions passes on its own. -/
theorem check_iff_eagerlyAccepted_parityProgram :
    parityProgram.names.Nodup ∧ parityProgram.OnlyCallsFunctions ∧
      ∃ declared, Scopes.ofProgram parityProgram = .ok declared ∧
        parityProgram.check declared = .ok ⟨parityProgram.signatures, []⟩ ∧
        ∀ d ∈ parityProgram.declarations, EagerlyAccepted parityProgram d := by
  have hp : parityProgram.names.Nodup := by decide
  have hcalls : parityProgram.OnlyCallsFunctions := by decide
  have haccepted : parityProgram.Accepted ⟨parityProgram.signatures, []⟩ := by decide +kernel
  obtain ⟨declared, hdeclared, hchecked⟩ := haccepted
  obtain ⟨declared', hdeclared', heager, _⟩ := check_iff_eagerlyAccepted hp hcalls
  rw [hdeclared] at hdeclared'
  cases hdeclared'
  exact ⟨hp, hcalls, declared, hdeclared, hchecked, heager.mp ⟨_, hchecked⟩⟩

end Piecewise.Typing
