import Piecewise.Proofs.Evaluation.SharedRuns
import Piecewise.Proofs.Typing.Eager
import Piecewise.Proofs.Typing.Environments

/-!
# The order of declarations

Functions are looked up by name, so their order does not show in a run. It shows in the checker at
one place. A call of a function without a type visits that function first, but a function used as a
value is taken with the type that it has at that moment. So for programs that use functions as
values it depends on the order whether they are accepted; for programs that only call functions it
does not.
-/

namespace Piecewise

namespace Program

variable {p q : Program}

theorem names_perm (h : p.declarations.Perm q.declarations) : p.names.Perm q.names :=
  h.map Declaration.name

/-- Where names differ, the order of declarations does not matter to a search for one of them. -/
theorem find?_eq_of_perm (hp : p.names.Nodup) (h : p.declarations.Perm q.declarations)
    (name : String) : p.find? name = q.find? name := by
  have hq : q.names.Nodup := (names_perm h).nodup hp
  cases hfound : p.find? name with
  | none =>
    have hnone : name ∉ q.names := fun hname =>
      find?_eq_none_iff.mp hfound ((names_perm h).mem_iff.mpr hname)
    exact (find?_eq_none_iff.mpr hnone).symm
  | some d =>
    obtain ⟨hd, rfl⟩ := mem_of_find? hfound
    exact (find?_of_mem hq (h.mem_iff.mp hd)).symm

theorem onlyCallsFunctions_of_perm (h : p.declarations.Perm q.declarations)
    (hcalls : p.OnlyCallsFunctions) : q.OnlyCallsFunctions := by
  intro d hd name hname
  have hnames := (names_perm h).mem_iff (a := name)
  rw [← hnames]
  exact hcalls d (h.mem_iff.mpr hd) name hname

/-- A program whose functions are in order, and only called, is accepted. -/
theorem accepted_of_wellTyped (hp : p.names.Nodup)
    (htyped : ∀ d ∈ p.declarations, Typing.WellTyped Typing.callRules p d) :
    p.Accepted ⟨p.signatures, []⟩ := by
  have hdeclared : Scopes.ofProgram p = .ok ⟨p.globals [], []⟩ :=
    Scopes.ofProgram_eq_ok_iff.mpr ⟨hp, rfl⟩
  obtain ⟨t, ht⟩ := Typing.visitAll_complete hp htyped p.declarations (fun _ hd => hd)
    (s := .initial ⟨p.globals [], []⟩) rfl
  have hchecked : p.check ⟨p.globals [], []⟩ = .ok t.scopes := by
    have hstep : Typing.checkProgram p (.initial ⟨p.globals [], []⟩) = .ok () t := ht
    rw [check, hstep]
  have haccepted : p.Accepted t.scopes := ⟨_, hdeclared, hchecked⟩
  rwa [(Typing.typed_of_accepted haccepted).2.1] at haccepted

/-- In another order a program that only calls its functions is accepted too. -/
theorem accepted_of_perm (h : p.declarations.Perm q.declarations)
    (hcalls : p.OnlyCallsFunctions) {checked : Scopes} (haccepted : p.Accepted checked) :
    q.Accepted ⟨q.signatures, []⟩ := by
  obtain ⟨hp, _, htyped⟩ := Typing.typed_of_accepted haccepted
  have hnarrow := Typing.wellTyped_callRules hcalls htyped
  refine accepted_of_wellTyped ((names_perm h).nodup hp) fun d hd => ?_
  exact (hnarrow d (h.mem_iff.mpr hd)).transfer (find?_eq_of_perm hp h)

/-- The order of declarations does not matter. A program that only calls its functions is accepted
in every order or in none. And whatever a program does with its functions, in any two orders in
which it is accepted every function has the same type, and runs alike. -/
theorem order_irrelevant (hp : p.names.Nodup) (h : p.declarations.Perm q.declarations) :
    (p.OnlyCallsFunctions →
      ((∃ checked, p.Accepted checked) ↔ ∃ checked, q.Accepted checked)) ∧
    ∀ checked checked', p.Accepted checked → q.Accepted checked' →
      (∀ name, checked.global.get? name = checked'.global.get? name) ∧
      ∀ d ∈ p.declarations, ∀ mode depth,
        Evaluation.withoutScopes (Evaluation.runEntry mode depth d (.initial checked)) =
          Evaluation.withoutScopes (Evaluation.runEntry mode depth d (.initial checked')) := by
  have hfind := find?_eq_of_perm hp h
  refine ⟨fun hcalls => ⟨?_, ?_⟩, fun checked checked' hchecked hchecked' => ⟨?_, ?_⟩⟩
  · rintro ⟨checked, haccepted⟩
    exact ⟨_, accepted_of_perm h hcalls haccepted⟩
  · rintro ⟨checked, haccepted⟩
    exact ⟨_, accepted_of_perm h.symm (onlyCallsFunctions_of_perm h hcalls) haccepted⟩
  · intro name
    rw [(Typing.typed_of_accepted hchecked).2.1, (Typing.typed_of_accepted hchecked').2.1,
      get?_signatures, get?_signatures, hfind name]
  · intro d hd mode depth
    exact Evaluation.runEntry_shared (.of_find? hfind) hchecked hchecked' hd (h.mem_iff.mp hd)
      trivial mode depth

end Program

/-- `even`, `odd` and `tail` from the last to the first. -/
def reversedParity : Program :=
  ⟨[Typing.tailOfBooleans, Typing.oddLength, Typing.evenLength], default⟩

/-- Both orders are accepted, and both run alike from any function. -/
theorem order_irrelevant_reversedParity :
    Typing.parityProgram.Accepted ⟨Typing.parityProgram.signatures, []⟩ ∧
      reversedParity.Accepted ⟨reversedParity.signatures, []⟩ ∧
      ∀ d ∈ Typing.parityProgram.declarations, ∀ mode depth,
        Evaluation.withoutScopes (Evaluation.runEntry mode depth d
            (.initial ⟨Typing.parityProgram.signatures, []⟩)) =
          Evaluation.withoutScopes (Evaluation.runEntry mode depth d
            (.initial ⟨reversedParity.signatures, []⟩)) := by
  have hp : Typing.parityProgram.names.Nodup := by decide
  have hperm : Typing.parityProgram.declarations.Perm reversedParity.declarations :=
    (List.reverse_perm Typing.parityProgram.declarations).symm
  have haccepted : Typing.parityProgram.Accepted ⟨Typing.parityProgram.signatures, []⟩ := by
    decide +kernel
  obtain ⟨hiff, hsame⟩ := Program.order_irrelevant hp hperm
  obtain ⟨checked, hchecked⟩ := (hiff (by decide)).mp ⟨_, haccepted⟩
  rw [(Typing.typed_of_accepted hchecked).2.1] at hchecked
  exact ⟨haccepted, hchecked, (hsame _ _ haccepted hchecked).2⟩

/-- `keep(x: bool) -> bool = x`. -/
def keep : Declaration where
  number := 0
  name := "keep"
  parameters := [⟨"x", .primitive default .bool, default⟩]
  returns := .primitive default .bool
  body := .inline (.identifier default "x")
  span := default

/-- `accepts(g: (bool) -> bool) -> bool = true`. -/
def takesFunction : Declaration where
  number := 1
  name := "accepts"
  parameters := [⟨"g", .function default [.primitive default .bool] (.primitive default .bool),
    default⟩]
  returns := .primitive default .bool
  body := .inline (.boolean default true)
  span := default

/-- `main() -> bool = accepts(keep)`. -/
def passesFunction : Declaration where
  number := 2
  name := "main"
  parameters := []
  returns := .primitive default .bool
  body := .inline (.call default "accepts" [.identifier default "keep"])
  span := default

/-- A program in which a function is declared before it is used as a value. -/
def declaredBefore : Program := ⟨[keep, takesFunction, passesFunction], default⟩

/-- The same functions, with the one that is used as a value declared last. -/
def declaredAfter : Program := ⟨[takesFunction, passesFunction, keep], default⟩

/-- A function used as a value must have been visited before: the program is accepted in one order
and not in the other. -/
theorem order_relevant_declaredAfter :
    declaredBefore.names.Nodup ∧ declaredBefore.declarations.Perm declaredAfter.declarations ∧
      (∃ checked, declaredBefore.Accepted checked) ∧
      ¬ ∃ checked, declaredAfter.Accepted checked := by
  have haccepted : declaredBefore.Accepted ⟨declaredBefore.signatures, []⟩ := by decide +kernel
  have hrejected : ¬ declaredAfter.Accepted ⟨declaredAfter.signatures, []⟩ := by decide +kernel
  have hperm : ([keep] ++ [takesFunction, passesFunction]).Perm
      ([takesFunction, passesFunction] ++ [keep]) := List.perm_append_comm
  refine ⟨by decide, hperm, ⟨_, haccepted⟩, ?_⟩
  rintro ⟨checked, hchecked⟩
  rw [(Typing.typed_of_accepted hchecked).2.1] at hchecked
  exact hrejected hchecked

end Piecewise
