import Piecewise.Proofs.Evaluation.Runs
import Piecewise.Proofs.Typing.Sound

/-!
# Scope safety

What the checker guarantees of every program it accepts, functions as values included: a run finds
every name that it looks up, declares no name twice, and calls every function with a value for
each parameter. The values themselves may be of any kind, so the faults that remain are those of
values.
-/

namespace Piecewise

namespace Evaluation

open Typing

theorem isInternal_of_equal {mode : ListEquality} {place : Position} {v w : Value}
    {d : Diagnostic} (h : Value.equal mode place v w = .error d) :
    d.fault.isInternal = true := by
  unfold Value.equal at h
  split at h
  · cases h
  · cases h
    rfl
  · cases h
    rfl
  · cases h

theorem fault_of_apply {b : Builtin} {fresh : Nat} {values : List Value} {place : Position}
    {d : Diagnostic} (h : b.apply fresh values place = .error d) :
    d.fault.isInternal = true ∨ ∃ function, d.fault = .emptyList function := by
  unfold Builtin.apply at h
  split at h
  · cases h
  · cases h
    exact Or.inr ⟨_, rfl⟩
  · cases h
  · cases h
  · cases h
    exact Or.inl rfl
  · cases h
    exact Or.inl rfl

theorem ne_scopeFault {fault : Fault}
    (h : fault.isInternal = true ∨ ∃ function, fault = .emptyList function) (name : String) :
    fault ≠ .unknownIdentifier name ∧ fault ≠ .duplicateIdentifier name := by
  rcases h with hinternal | ⟨function, rfl⟩
  · constructor
    · rintro rfl
      cases hinternal
    · rintro rfl
      cases hinternal
  · constructor
    · intro h
      cases h
    · intro h
      cases h

/-- Any value may be of any type, and all faults of values are allowed. -/
def scopeDiscipline (p : Program) : Discipline checkerRules p where
  fits _ _ := True
  allows fault := fault.isInternal = true ∨ ∃ function, fault = .emptyList function
  unbound := True
  boolean _ := trivial
  real _ := trivial
  text _ := trivial
  list _ _ _ _ := trivial
  ofBoolean _ _ := Or.inr (Or.inl rfl)
  ofReal _ _ := Or.inr (Or.inl rfl)
  ofList _ _ _ := Or.inr (Or.inl rfl)
  joinLeft _ _ _ _ _ _ := trivial
  joinRight _ _ _ _ _ _ := trivial
  append _ _ _ _ _ _ _ _ := trivial
  compared _ _ _ _ _ _ _ _ _ _ h := Or.inl (isInternal_of_equal h)
  passed _ _ _ _ _ := trivial
  returned _ _ _ _ _ := trivial
  functionValue _ _ _ := trivial
  functionDropped _ _ _ := trivial
  functionCalled _ _ _ _ _ := Or.inl rfl
  typeValue _ _ := trivial
  unboundIdentifier _ _ := Or.inl rfl
  unboundFunction _ _ := Or.inl rfl
  builtin _ _ _ _ _ _ _ _ := ⟨fun _ _ => trivial, fun _ h => fault_of_apply h⟩

/-- A run of any function of an accepted program meets no name that is unknown or declared twice;
what it may end in is an empty list or a fault of values. Nor does it call a function with another
number of values than parameters: whatever such a call would do, the run is the same. -/
theorem runEntry_scopeSafe {p : Program} {checked : Scopes} (h : p.Accepted checked)
    {d : Declaration} (hd : d ∈ p.declarations) (mode : ListEquality) (depth : Nat) :
    (∀ failure t, runEntry mode depth d (.initial checked) = .error (.fault failure) t →
      (∀ name, failure.fault ≠ .unknownIdentifier name) ∧
      (∀ name, failure.fault ≠ .duplicateIdentifier name) ∧
      (failure.fault.isInternal = true ∨ ∃ function, failure.fault = .emptyList function)) ∧
    ∀ other : Call, runEntryGuarded other mode depth d (.initial checked) =
      runEntry mode depth d (.initial checked) := by
  obtain ⟨_, rfl, htyped⟩ := typed_of_accepted h
  have hrun : ∀ other : Call, Meets ⟨p.signatures, []⟩ (scopeDiscipline p).allows
      (runEntry mode depth d) (runEntryGuarded other mode depth d) fun _ => True := fun other =>
    runEntry_keeps (D := scopeDiscipline p) htyped hd (fun _ => trivial) mode other depth
  refine ⟨fun failure t hfail => ?_, fun other => (hrun other _ rfl).1⟩
  have hallowed := (hrun (callWith (runBody mode depth)) _ rfl).2.2 failure t hfail
  exact ⟨fun name => (ne_scopeFault hallowed name).1, fun name => (ne_scopeFault hallowed name).2,
    hallowed⟩

/-- `negation(x: bool) -> bool = not x`. -/
def negation : Declaration where
  number := 0
  name := "negation"
  parameters := [⟨"x", .primitive default .bool, default⟩]
  returns := .primitive default .bool
  body := .inline (.unary default .not (.identifier default "x"))
  span := default

/-- `apply(f: (bool) -> bool, x: bool) -> bool = f(x)`. -/
def applyFunction : Declaration where
  number := 1
  name := "apply"
  parameters := [
    ⟨"f", .function default [.primitive default .bool] (.primitive default .bool), default⟩,
    ⟨"x", .primitive default .bool, default⟩]
  returns := .primitive default .bool
  body := .inline (.call default "f" [.identifier default "x"])
  span := default

/-- `main() -> bool = apply(negation, true)`. -/
def applyNegation : Declaration where
  number := 2
  name := "main"
  parameters := []
  returns := .primitive default .bool
  body := .inline (.call default "apply" [.identifier default "negation", .boolean default true])
  span := default

def higherOrder : Program := ⟨[negation, applyFunction, applyNegation], default⟩

/-- The program is accepted, yet its run ends where the parameter is called, to which the function
is not bound. All calls have their values: it is the same run where others cannot be made. -/
theorem runEntry_scopeSafe_higherOrder :
    higherOrder.Accepted ⟨higherOrder.signatures, []⟩ ∧
      applyNegation ∈ higherOrder.declarations ∧
      (∃ t, runEntry .structural 2 applyNegation (.initial ⟨higherOrder.signatures, []⟩) =
        .error (.fault ((Fault.unboundFunction "f").at default)) t) ∧
      runEntryGuarded (fun _ _ _ _ => throw .tooDeep) .structural 2 applyNegation
          (.initial ⟨higherOrder.signatures, []⟩) =
        runEntry .structural 2 applyNegation (.initial ⟨higherOrder.signatures, []⟩) := by
  have haccepted : higherOrder.Accepted ⟨higherOrder.signatures, []⟩ := by decide +kernel
  have hentry : applyNegation ∈ higherOrder.declarations := by simp [higherOrder]
  have hsafe := runEntry_scopeSafe haccepted hentry .structural 2
  exact ⟨haccepted, hentry, ⟨_, rfl⟩, hsafe.2 _⟩

end Evaluation

end Piecewise
