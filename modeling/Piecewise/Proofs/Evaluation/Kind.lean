import Piecewise.Proofs.Evaluation.Runs
import Piecewise.Proofs.Typing.Narrow
import Piecewise.Proofs.Typing.Sound

/-!
# Kinds of values

Arguments are compared with parameters on the outside only, so the elements of a list may be of
other types than the checker takes them for. The outside is all that most operations look at, and
all that their results depend on: of the builtins only `head` turns an element into a value. In a
program without it that only calls its functions, nothing goes wrong.
-/

namespace Piecewise

/-- The outermost shape of a value that is neither a function nor a type. -/
def Value.kind? : Value → Option Ty.Kind
  | boolean _ => some .boolean
  | real _ => some .real
  | text _ => some .text
  | list _ _ => some .list
  | function _ | type _ => none

namespace Value

variable {v : Value}

theorem boolean_of_kind? (h : v.kind? = some .boolean) : ∃ b, v = .boolean b := by
  cases v with
  | boolean b => exact ⟨b, rfl⟩
  | real | text | list | function | type => cases h

theorem real_of_kind? (h : v.kind? = some .real) : ∃ x, v = .real x := by
  cases v with
  | real x => exact ⟨x, rfl⟩
  | boolean | text | list | function | type => cases h

theorem list_of_kind? (h : v.kind? = some .list) : ∃ i vs, v = .list i vs := by
  cases v with
  | list i vs => exact ⟨i, vs, rfl⟩
  | boolean | real | text | function | type => cases h

theorem kind?_ne_function (v : Value) : v.kind? ≠ some .function := by
  cases v <;> intro h <;> cases h

/-- A value that is neither a function nor a type can be compared with any other. -/
theorem equal_isOk_of_kind? {kind : Ty.Kind} (h : v.kind? = some kind) (mode : ListEquality)
    (place : Position) (w : Value) : ∃ b, Value.equal mode place v w = .ok b := by
  unfold Value.equal
  split
  · exact ⟨_, rfl⟩
  · cases h
  · cases h
  · exact ⟨_, rfl⟩

end Value

/-- Of the builtins at most `tail` is declared, and it takes a list and returns one. -/
structure Program.OnlyTail (p : Program) : Prop where
  head : "head" ∉ p.names
  tail : ∀ f ∈ p.declarations, f.name = "tail" →
    (f.inputs.head?.map fun input => input.type.kind) = some .list ∧ f.output.kind = .list

namespace Evaluation

open Typing

theorem name_of_ofName? {name : String} {b : Builtin} (h : Builtin.ofName? name = some b) :
    name = b.name := by
  unfold Builtin.ofName? at h
  split at h
  · cases h
    rfl
  · cases h
    rfl
  · cases h

/-- The tail of a list is a list. -/
theorem apply_tail (fresh i : Nat) (elements rest : List Value) (place : Position) :
    ∃ j vs, Builtin.tail.apply fresh (.list i elements :: rest) place = .ok (.list j vs) := by
  cases elements with
  | nil => exact ⟨i, [], rfl⟩
  | cons first others => exact ⟨fresh, others, rfl⟩

theorem tail_keepsKind {p : Program} (hp : p.OnlyTail) {f : Declaration}
    (hf : f ∈ p.declarations) {b : Builtin} (hb : Builtin.ofName? f.name = some b) {fresh : Nat}
    {values : List Value} {place : Position}
    (hvalues : List.Forall₂ (fun v input => v.kind? = some input.type.kind) values f.inputs) :
    ∃ v, b.apply fresh values place = .ok v ∧ v.kind? = some f.output.kind := by
  have hname := name_of_ofName? hb
  cases b with
  | head =>
    have hmem : f.name ∈ p.names := List.mem_map_of_mem hf
    rw [hname] at hmem
    exact absurd hmem hp.head
  | tail =>
    obtain ⟨hinput, houtput⟩ := hp.tail f hf hname
    generalize f.inputs = inputs at hinput hvalues
    cases hvalues with
    | nil => cases hinput
    | cons hfirst _ =>
      obtain ⟨i, elements, rfl⟩ := Value.list_of_kind? (hfirst.trans hinput)
      obtain ⟨j, vs, happly⟩ := apply_tail fresh i elements _ place
      exact ⟨.list j vs, happly, congrArg some houtput.symm⟩

/-- Values are of the kind of their type, and there is no fault at all. -/
def kindDiscipline {p : Program} (hp : p.OnlyTail) : Discipline callRules p where
  fits v type := v.kind? = some type.kind
  allows _ := False
  unbound := False
  boolean _ := rfl
  real _ := rfl
  text _ := rfl
  list _ _ _ _ := rfl
  ofBoolean _ h := Or.inl (Value.boolean_of_kind? h)
  ofReal _ h := Or.inl (Value.real_of_kind? h)
  ofList _ _ h := Or.inl (Value.list_of_kind? h)
  joinLeft _ _ _ _ hjoin h := h.trans (congrArg some (Ty.kind_of_join hjoin).1.symm)
  joinRight _ _ _ _ hjoin h := h.trans (congrArg some (Ty.kind_of_join hjoin).2.symm)
  append _ _ _ _ _ _ h _ := h
  compared mode place v w _ _ d hv _ _ hfault := by
    obtain ⟨b, hb⟩ := Value.equal_isOk_of_kind? hv mode place w
    rw [hb] at hfault
    cases hfault
  passed _ _ _ h haccepted := h.trans (congrArg some (Ty.sameKind_iff.mp haccepted).symm)
  returned _ _ _ h hagrees := h.trans (congrArg some (Ty.kind_of_agrees hagrees))
  functionValue h := h.elim
  functionDropped _ _ h := by cases h
  functionCalled v _ _ _ h := v.kind?_ne_function h
  typeValue h := h.elim
  unboundIdentifier h := h.elim
  unboundFunction h := h.elim
  builtin f hf b hb fresh values place hvalues := by
    obtain ⟨w, happly, hw⟩ := tail_keepsKind hp hf hb hvalues
    refine ⟨fun v hv => ?_, fun d hfault => ?_⟩
    · rw [happly] at hv
      cases hv
      exact hw
    · rw [happly] at hfault
      cases hfault

/-- Without `head` an accepted program that only calls its functions never fails: unless calls
nest too deeply, a run of a function without parameters has a value, of the kind of the type it is
declared with. -/
theorem runEntry_kind {p : Program} {checked : Scopes} (h : p.Accepted checked)
    (hcalls : p.OnlyCallsFunctions) (htail : p.OnlyTail) {d : Declaration}
    (hd : d ∈ p.declarations) (hentry : d.parameters = []) (mode : ListEquality) (depth : Nat) :
    (∃ v t, runEntry mode depth d (.initial checked) = .ok v t ∧
      v.kind? = some d.output.kind) ∨
    ∃ t, runEntry mode depth d (.initial checked) = .error .tooDeep t := by
  obtain ⟨_, rfl, htyped⟩ := typed_of_accepted h
  rcases runEntry_outcome (kindDiscipline htail) (wellTyped_callRules hcalls htyped) hd
    (fun hsome => hsome hentry) mode depth with hvalue | ⟨failure, t, hrun, hnever⟩ | hdeep
  · exact Or.inl hvalue
  · exact hnever.elim
  · exact Or.inr hdeep

/-- `tail(xs: [real]) -> [real] = xs`. -/
def preludeTail : Declaration where
  number := 0
  name := "tail"
  parameters := [⟨"xs", .list default (.primitive default .real), default⟩]
  returns := .list default (.primitive default .real)
  body := .inline (.identifier default "xs")
  span := default

/-- `rotate(xs: [real]) -> [real] = tail(xs) ++ xs`. -/
def rotate : Declaration where
  number := 1
  name := "rotate"
  parameters := [⟨"xs", .list default (.primitive default .real), default⟩]
  returns := .list default (.primitive default .real)
  body := .inline (.binary default .concat
    (.call default "tail" [.identifier default "xs"]) (.identifier default "xs"))
  span := default

/-- `main() -> [real] = rotate([true, false])`. -/
def rotateBooleans : Declaration where
  number := 2
  name := "main"
  parameters := []
  returns := .list default (.primitive default .real)
  body := .inline (.call default "rotate"
    [.list default [.boolean default true, .boolean default false]])
  span := default

/-- A program that takes booleans for reals where only the outside is compared. -/
def shallowProgram : Program := ⟨[preludeTail, rotate, rotateBooleans], default⟩

/-- The run ends, with a list as declared, although of booleans and not of reals. -/
theorem runEntry_kind_shallowProgram :
    shallowProgram.Accepted ⟨shallowProgram.signatures, []⟩ ∧
      shallowProgram.OnlyCallsFunctions ∧ shallowProgram.OnlyTail ∧
      ∃ v t, runEntry .structural 2 rotateBooleans (.initial ⟨shallowProgram.signatures, []⟩) =
        .ok v t ∧ v = .list 2 [.boolean false, .boolean true, .boolean false] ∧
        v.kind? = some rotateBooleans.output.kind := by
  have haccepted : shallowProgram.Accepted ⟨shallowProgram.signatures, []⟩ := by decide +kernel
  have hcalls : shallowProgram.OnlyCallsFunctions := by decide
  have htail : shallowProgram.OnlyTail := ⟨by decide, by decide⟩
  have hentry : rotateBooleans ∈ shallowProgram.declarations := by simp [shallowProgram]
  have hrun : ∃ t, runEntry .structural 2 rotateBooleans
      (.initial ⟨shallowProgram.signatures, []⟩) =
        .ok (.list 2 [.boolean false, .boolean true, .boolean false]) t := ⟨_, rfl⟩
  obtain ⟨t, hrun⟩ := hrun
  rcases runEntry_kind haccepted hcalls htail hentry rfl .structural 2 with
    ⟨v, u, hvalue, hkind⟩ | ⟨u, hdeep⟩
  · rw [hrun] at hvalue
    cases hvalue
    exact ⟨haccepted, hcalls, htail, _, t, hrun, rfl, hkind⟩
  · rw [hrun] at hdeep
    cases hdeep

end Evaluation

end Piecewise
