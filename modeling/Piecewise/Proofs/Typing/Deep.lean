import Piecewise.Proofs.Typing.Complete
import Piecewise.Proofs.Typing.Narrow

/-!
# Arguments that agree in depth

The checker compares arguments with parameters on the outside only. Whether they agree in depth
can be asked of an accepted program afterwards, of the types that the checker itself finds for the
arguments. Where they do, and functions are only called, the program is typed by rules that accept
an argument in depth.
-/

namespace Piecewise

def Ty.inputs : Ty → List (Parameter Ty)
  | function inputs _ => inputs
  | _ => []

namespace Typing

/-- The rules by which arguments agree in depth with the parameters and functions are only
called. -/
def deepRules : Rules := ⟨fun a b => b.agrees a = true, False⟩

/-- The type that the checker finds for an expression in the frame of a function. -/
def inferredType (checked : Scopes) (d : Declaration) (e : Expr) : Option Ty :=
  match typeOf e (.initial ⟨checked.global, [d.frame]⟩) with
  | .ok type _ => some type
  | .error _ _ => none

end Typing

/-- At every call the types that the checker finds for the arguments agree in depth with those of
the parameters. -/
def Program.DeepArguments (p : Program) (checked : Scopes) : Prop :=
  ∀ d ∈ p.declarations, ∀ c ∈ d.body.calls,
    ∀ symbol ∈ (⟨checked.global, [d.frame]⟩ : Scopes).resolve? c.callee,
      ∀ q ∈ c.arguments.zip symbol.type.inputs, ∀ type ∈ Typing.inferredType checked d q.1,
        type.agrees q.2.type = true

instance (p : Program) (checked : Scopes) : Decidable (p.DeepArguments checked) :=
  inferInstanceAs (Decidable (∀ d ∈ p.declarations, ∀ c ∈ d.body.calls, _))

namespace Typing

variable {p : Program} {d : Declaration}

/-- A type by the rules is the one that is asked about. -/
theorem inferredType_eq (hp : p.names.Nodup)
    (htyped : ∀ d ∈ p.declarations, WellTyped callRules p d) {e : Expr} {type : Ty}
    (h : HasType callRules (environment p d) e type) :
    inferredType ⟨p.signatures, []⟩ d e = some type := by
  have hstep : ∀ s : State, typeOf e s = infer (visitWithin s.scopes.pending) e s :=
    fun _ => rfl
  obtain ⟨t, ht⟩ := (infer_complete (visitWithin_complete hp htyped _) h).of_signatures
  rw [inferredType, hstep, ht]

theorem accepted_of_agrees {p : Program} {d : Declaration} (hp : p.names.Nodup)
    (htyped : ∀ d ∈ p.declarations, WellTyped callRules p d) :
    ∀ {arguments : List Expr} {types : List Ty} {inputs : List (Parameter Ty)},
      HaveTypes callRules (environment p d) arguments types → types.length = inputs.length →
      (∀ q ∈ arguments.zip inputs, ∀ type ∈ inferredType ⟨p.signatures, []⟩ d q.1,
        type.agrees q.2.type = true) →
      List.Forall₂ (fun input type => deepRules.accepts input.type type) inputs types
  | [], _, inputs, h, hlength, _ => by
    cases h
    rw [List.eq_nil_of_length_eq_zero hlength.symm]
    exact .nil
  | e :: rest, _, inputs, h, hlength, hagree => by
    cases h with
    | cons first others =>
      cases inputs with
      | nil => cases hlength
      | cons input inputs =>
        refine .cons ?_ (accepted_of_agrees hp htyped others (Nat.succ.inj hlength) ?_)
        · exact hagree (e, input) List.mem_cons_self _ (inferredType_eq hp htyped first)
        · exact fun q hq => hagree q (List.mem_cons_of_mem _ hq)

theorem narrows_of_deepArguments (hp : p.names.Nodup) (hcalls : p.OnlyCallsFunctions)
    (htyped : ∀ d ∈ p.declarations, WellTyped callRules p d)
    (hdeep : p.DeepArguments ⟨p.signatures, []⟩) (hd : d ∈ p.declarations) :
    Narrows callRules deepRules (environment p d) d.body.identifiers d.body.calls := by
  refine ⟨(narrows_of_onlyCallsFunctions hcalls hd).values, ?_⟩
  intro c hc meaning inputs output types hlookup hsignature htypes haccepted
  have hresolve : (⟨p.signatures, [d.frame]⟩ : Scopes).resolve? c.callee =
      some (meaning.symbol p.names c.callee) := by
    rw [Program.signatures_eq_globals, resolve?_globals, hlookup]
    rfl
  have hinputs : (meaning.symbol p.names c.callee).type.inputs = inputs := by
    cases meaning with
    | parameter type =>
      change type.inputs = inputs
      rw [show type = .function inputs output from hsignature]
      rfl
    | function f =>
      obtain ⟨hf, hname⟩ := mem_of_lookup hlookup
      have hknown : c.callee ∈ p.names := hname ▸ List.mem_map_of_mem hf
      rw [Meaning.type_symbol, if_pos hknown]
      rw [show f.signature = .function inputs output from hsignature]
      rfl
  refine accepted_of_agrees hp htyped htypes haccepted.length_eq.symm fun q hq => ?_
  exact hdeep d hd c hc _ hresolve q (hinputs.symm ▸ hq)

theorem wellTyped_deepRules (hp : p.names.Nodup) (hcalls : p.OnlyCallsFunctions)
    (htyped : ∀ d ∈ p.declarations, WellTyped callRules p d)
    (hdeep : p.DeepArguments ⟨p.signatures, []⟩) :
    ∀ d ∈ p.declarations, WellTyped deepRules p d := by
  intro d hd
  exact (htyped d hd).narrow (narrows_of_deepArguments hp hcalls htyped hdeep hd)

end Typing

end Piecewise
