import Piecewise.Proofs.Evaluation.Renamed
import Piecewise.Proofs.Evaluation.ScopeSafety
import Piecewise.Proofs.Run.Extension
import Piecewise.Proofs.Typing.Renamed

/-!
# Names of parameters do not matter

An accepted program stays accepted when one of its parameters gets a name that the program does not
have. Whatever its entry, it ends as before, except that a fault that names the parameter has its
new name.
-/

namespace Piecewise

/-- A function of an accepted program ends as it does without scopes. -/
theorem Declaration.run_eq_stackless {p : Program} {checked : Scopes} (h : p.Accepted checked)
    {d : Declaration} (hd : d ∈ p.declarations) (mode : ListEquality) (depth : Nat) :
    d.run mode depth checked =
      Evaluation.answer (Stackless.runEntry p mode depth d .initial) := by
  rw [Evaluation.run_eq_answer,
    ← (Evaluation.runEntry_refines h hd mode depth (.initial checked) rfl).1]
  rfl

namespace Renaming

variable {r : Renaming} {p : Program}

/-- How a run ends in a program and in the renamed one. -/
inductive SameEnd (r : Renaming) (p : Program) :
    Except Evaluation.Halt Value → Except Evaluation.Halt Value → Prop
  | value {v w : Value} (h : w.shown = v.shown) : SameEnd r p (.ok v) (.ok w)
  | fault {report report' : Diagnostic} (h : r.Reports p report report') :
      SameEnd r p (.error (.fault report)) (.error (.fault report'))
  | tooDeep : SameEnd r p (.error .tooDeep) (.error .tooDeep)

theorem sameEnd_of_sameRun {outcome outcome' : EStateM.Result Evaluation.Halt _ Value}
    (h : Stackless.SameRun r p (Stackless.SameValue r) outcome outcome') :
    r.SameEnd p (Evaluation.answer outcome) (Evaluation.answer outcome') := by
  cases h with
  | ok c hv =>
    apply SameEnd.value
    rw [hv, shown_value]
  | fault c hreport => exact .fault hreport
  | tooDeep c => exact .tooDeep

/-- Names of parameters do not matter. A parameter that gets a name which the program does not have
leaves the program accepted, and every run of it ends in the same way: with a value that is shown
alike, or with the same fault at the same place, in which the parameter goes by its new name. -/
theorem run_renamed (h : r.Fits p) {checked : Scopes} (haccepted : p.Accepted checked) :
    (∃ checked', (r.program p).Accepted checked') ∧
      ∀ c depth, r.SameEnd p (p.run c depth) ((r.program p).run c depth) := by
  have hrenamed := Typing.accepted_renamed h haccepted
  refine ⟨⟨_, hrenamed⟩, fun c depth => ?_⟩
  obtain ⟨hp, rfl, _⟩ := Typing.typed_of_accepted haccepted
  rw [Program.run_of_accepted haccepted, Program.run_of_accepted hrenamed, find?_program]
  cases hfound : p.find? c.entry with
  | none => exact .fault (.of_ne fun _ _ => ⟨nofun, nofun⟩)
  | some d =>
    have hd := (Program.mem_of_find? hfound).1
    show r.SameEnd p (d.run _ _ _) ((r.declaration d).run _ _ _)
    rw [Declaration.run_eq_stackless haccepted hd,
      Declaration.run_eq_stackless hrenamed (Typing.mem_program hd)]
    exact sameEnd_of_sameRun (Stackless.runEntry_mirrors h hp c.equality depth hd .initial)

/-- The parameter `f` of `apply` by the name of `g`. -/
def functionParameter : Renaming := ⟨"apply", "f", "g"⟩

open Evaluation in
/-- The run ends where the parameter is called, and the fault has its new name. -/
theorem run_renamed_functionParameter :
    functionParameter.Fits higherOrder ∧
      higherOrder.Accepted ⟨higherOrder.signatures, []⟩ ∧
      (∃ checked, (functionParameter.program higherOrder).Accepted checked) ∧
      higherOrder.run Config.initial 2 =
        .error (.fault ((Fault.unboundFunction "f").at default)) ∧
      (functionParameter.program higherOrder).run Config.initial 2 =
        .error (.fault ((Fault.unboundFunction "g").at default)) := by
  have hfits : functionParameter.Fits higherOrder := by decide
  have haccepted : higherOrder.Accepted ⟨higherOrder.signatures, []⟩ := by decide +kernel
  have hrun : higherOrder.run Config.initial 2 =
      .error (.fault ((Fault.unboundFunction "f").at default)) := by
    rw [Program.run_of_accepted haccepted]
    rfl
  obtain ⟨hrenamed, hends⟩ := run_renamed hfits haccepted
  refine ⟨hfits, haccepted, hrenamed, hrun, ?_⟩
  have hend := hends Config.initial 2
  rw [hrun] at hend
  generalize (functionParameter.program higherOrder).run Config.initial 2 = outcome at hend ⊢
  cases hend with
  | fault hreport =>
    generalize hfault : (Fault.unboundFunction "f").at default = report at hreport
    cases hreport with
    | renamed hnames =>
      cases hnames with
      | identifier => cases hfault
      | callee =>
        cases hfault
        rfl
    | kept h =>
      exact absurd (h _ default .callee hfault.symm) (by decide)

end Renaming

end Piecewise
