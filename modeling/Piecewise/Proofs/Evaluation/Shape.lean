import Piecewise.Proofs.Evaluation.Kind
import Piecewise.Proofs.Typing.Deep

/-!
# Shapes of values

A value has the shape of a type in depth: every element of a list, however deep, is of the element
type. The empty list has the shape of every list type, and nothing at all has the shape of an
unresolved type, so shapes are kept where types are joined. Where arguments agree in depth with
the parameters and functions are only called, the value of a run has the shape of its type, and
nothing can go wrong but the head of an empty list.
-/

namespace Piecewise

namespace Evaluation

open Typing

inductive HasShape : Value → Ty → Prop
  | boolean (b : Bool) : HasShape (.boolean b) .boolean
  | real (x : Float) : HasShape (.real x) .real
  | text (s : String) : HasShape (.text s) .text
  | list (i : Nat) (vs : List Value) (type : Ty) (h : ∀ v ∈ vs, HasShape v type) :
      HasShape (.list i vs) (.list type)

namespace HasShape

variable {v : Value} {a b type : Ty}

theorem isResolved (h : HasShape v a) : a.isResolved = true := by
  cases h <;> rfl

/-- A list with elements of no type has the shape of every list type. -/
theorem list_of_unresolved {i : Nat} {vs : List Value} (ha : a.isResolved = false)
    (h : ∀ v ∈ vs, HasShape v a) (type : Ty) : HasShape (.list i vs) (.list type) := by
  refine .list i vs type fun v hv => ?_
  have hresolved := (h v hv).isResolved
  rw [ha] at hresolved
  cases hresolved

/-- Types other than lists are told by their kind. -/
theorem of_kind (h : HasShape v a) (hscalar : ∀ α, a ≠ .list α) (hkind : a.kind = b.kind) :
    HasShape v b := by
  cases h with
  | boolean x => exact Ty.kind_boolean_iff.mp hkind.symm ▸ .boolean x
  | real x => exact Ty.kind_real_iff.mp hkind.symm ▸ .real x
  | text x => exact Ty.kind_text_iff.mp hkind.symm ▸ .text x
  | list i vs α _ => exact absurd rfl (hscalar α)

theorem join_left (h : HasShape v a) : ∀ {b type : Ty}, a.join b = some type →
    HasShape v type := by
  induction h with
  | boolean x | real x | text x =>
    intro b type hjoin
    exact of_kind (by constructor) (fun _ h => by cases h) (Ty.kind_of_join hjoin).1.symm
  | list i vs element hvs ih =>
    intro b type hjoin
    rcases Ty.join_cases hjoin with ⟨_, _, hscalar⟩ | ⟨α, β, γ, hα, rfl, rfl, hγ⟩
    · exact absurd rfl (hscalar element)
    · cases hα
      rcases hγ with ⟨hempty, rfl⟩ | ⟨_, rfl⟩ | hinner
      · exact list_of_unresolved hempty hvs γ
      · exact .list i vs γ hvs
      · exact .list i vs γ fun v hv => ih v hv hinner

theorem join_right (h : HasShape v b) : ∀ {a type : Ty}, a.join b = some type →
    HasShape v type := by
  induction h with
  | boolean x | real x | text x =>
    intro a type hjoin
    exact of_kind (by constructor) (fun _ h => by cases h) (Ty.kind_of_join hjoin).2.symm
  | list i vs element hvs ih =>
    intro a type hjoin
    rcases Ty.join_cases hjoin with ⟨hagrees, rfl, hscalar⟩ | ⟨α, β, γ, rfl, hβ, rfl, hγ⟩
    · obtain ⟨α, hα⟩ := Ty.kind_list_iff.mp (Ty.kind_of_agrees hagrees)
      exact absurd hα (hscalar α)
    · cases hβ
      rcases hγ with ⟨_, rfl⟩ | ⟨hempty, rfl⟩ | hinner
      · exact .list i vs γ hvs
      · exact list_of_unresolved hempty hvs γ
      · exact .list i vs γ fun v hv => ih v hv hinner

/-- A type as written leaves nothing unresolved: a value of a type that agrees with it has its
shape too. -/
theorem of_agrees (h : HasShape v a) : ∀ {t : TypeExpr}, a.agrees t.toTy = true →
    HasShape v t.toTy := by
  induction h with
  | boolean x | real x | text x =>
    intro t hagrees
    exact of_kind (by constructor) (fun _ h => by cases h) (Ty.kind_of_agrees hagrees)
  | list i vs element hvs ih =>
    intro t hagrees
    cases t with
    | primitive span name =>
      have hkind := Ty.kind_of_agrees hagrees
      cases name <;> cases hkind
    | function span inputs output => cases Ty.kind_of_agrees hagrees
    | list span inner =>
      rw [TypeExpr.toTy] at hagrees ⊢
      rcases Ty.agrees_list_iff.mp hagrees with hempty | hwritten | hinner
      · exact list_of_unresolved hempty hvs _
      · cases inner with
        | primitive span name => cases name <;> cases hwritten
        | list | function => cases hwritten
      · exact .list i vs _ fun v hv => ih v hv hinner

theorem kind? (h : HasShape v a) : v.kind? = some a.kind := by
  cases h <;> rfl

theorem elements {i : Nat} {vs : List Value} (h : HasShape (.list i vs) (.list a)) :
    ∀ v ∈ vs, HasShape v a := by
  cases h with
  | list _ _ _ hvs => exact hvs

end HasShape

end Evaluation

/-- The builtins that are declared take one list of reals, and return a real and a list of them. -/
structure Program.PreludeBuiltins (p : Program) : Prop where
  head : ∀ f ∈ p.declarations, f.name = "head" →
    f.inputs.map Parameter.type = [.list .real] ∧ f.output = .real
  tail : ∀ f ∈ p.declarations, f.name = "tail" →
    f.inputs.map Parameter.type = [.list .real] ∧ f.output = .list .real

namespace Evaluation

open Typing

/-- A builtin on a list of reals has a result of its shape, or finds the list empty. -/
theorem apply_hasShape {p : Program} (hp : p.PreludeBuiltins) {f : Declaration}
    (hf : f ∈ p.declarations) {b : Builtin} (hb : Builtin.ofName? f.name = some b) {fresh : Nat}
    {values : List Value} {place : Position}
    (hvalues : List.Forall₂ (fun v input => HasShape v input.type) values f.inputs) :
    (∃ v, b.apply fresh values place = .ok v ∧ HasShape v f.output) ∨
      b.apply fresh values place = .error ((Fault.emptyList b.name).at place) := by
  have hname := name_of_ofName? hb
  have hsignature : f.inputs.map Parameter.type = [.list .real] ∧
      (b = .head → f.output = .real) ∧ (b = .tail → f.output = .list .real) := by
    cases b with
    | head => exact ⟨(hp.head f hf hname).1, fun _ => (hp.head f hf hname).2, fun h => by cases h⟩
    | tail => exact ⟨(hp.tail f hf hname).1, fun h => (by cases h), fun _ => (hp.tail f hf hname).2⟩
  obtain ⟨hinputs, hhead, htail⟩ := hsignature
  obtain ⟨input, hinput, htype⟩ := List.map_eq_singleton_iff.mp hinputs
  rw [hinput] at hvalues
  cases hvalues with
  | cons hfirst hrest =>
    cases hrest
    rw [htype] at hfirst
    obtain ⟨i, elements, rfl⟩ := Value.list_of_kind? hfirst.kind?
    cases elements with
    | nil =>
      cases b with
      | head => exact Or.inr rfl
      | tail => exact Or.inl ⟨_, rfl, htail rfl ▸ hfirst⟩
    | cons first rest =>
      cases b with
      | head => exact Or.inl ⟨_, rfl, hhead rfl ▸ hfirst.elements first List.mem_cons_self⟩
      | tail =>
        refine Or.inl ⟨_, rfl, htail rfl ▸ .list fresh rest .real fun v hv => ?_⟩
        exact hfirst.elements v (List.mem_cons_of_mem _ hv)

/-- Values have the shape of their type, and the only fault is an empty list. -/
def shapeDiscipline {p : Program} (hp : p.PreludeBuiltins) : Discipline deepRules p where
  fits := HasShape
  allows fault := ∃ function, fault = .emptyList function
  unbound := False
  boolean := .boolean
  real := .real
  text := .text
  list := .list
  ofBoolean _ h := Or.inl (Value.boolean_of_kind? h.kind?)
  ofReal _ h := Or.inl (Value.real_of_kind? h.kind?)
  ofList _ _ h := Or.inl (Value.list_of_kind? h.kind?)
  joinLeft _ _ _ _ hjoin h := h.join_left hjoin
  joinRight _ _ _ _ hjoin h := h.join_right hjoin
  append i vs j ws k type hvs hws := by
    cases hvs with
    | list _ _ element hvs =>
      refine .list k (vs ++ ws) element fun v hv => ?_
      rcases List.mem_append.mp hv with hv | hv
      · exact hvs v hv
      · exact hws.elements v hv
  compared mode place v w _ _ d hv _ _ hfault := by
    obtain ⟨b, hb⟩ := Value.equal_isOk_of_kind? hv.kind? mode place w
    rw [hb] at hfault
    cases hfault
  passed _ _ _ h haccepted := h.of_agrees haccepted
  returned _ _ _ h hagrees := h.of_agrees hagrees
  functionValue h := h.elim
  functionDropped _ _ h := by cases h
  functionCalled _ _ _ _ h := by cases h
  typeValue h := h.elim
  unboundIdentifier h := h.elim
  unboundFunction h := h.elim
  builtin f hf b hb fresh values place hvalues := by
    refine ⟨fun v hv => ?_, fun d hfault => ?_⟩
    · rcases apply_hasShape hp hf hb hvalues with ⟨w, happly, hw⟩ | hempty
      · rw [happly] at hv
        cases hv
        exact hw
      · rw [hempty] at hv
        cases hv
    · rcases apply_hasShape hp hf hb hvalues with ⟨w, happly, _⟩ | hempty
      · rw [happly] at hfault
        cases hfault
      · rw [hempty] at hfault
        cases hfault
        exact ⟨_, rfl⟩

/-- In an accepted program that only calls its functions, with arguments that agree in depth and
builtins as in the prelude: unless calls nest too deeply, a run of a function without parameters
has a value with the shape of the type it is declared with, or has found a list empty. -/
theorem runEntry_hasShape {p : Program} {checked : Scopes} (h : p.Accepted checked)
    (hcalls : p.OnlyCallsFunctions) (hdeep : p.DeepArguments checked)
    (hbuiltins : p.PreludeBuiltins) {d : Declaration} (hd : d ∈ p.declarations)
    (hentry : d.parameters = []) (mode : ListEquality) (depth : Nat) :
    (∃ v t, runEntry mode depth d (.initial checked) = .ok v t ∧ HasShape v d.output) ∨
    (∃ failure t function, runEntry mode depth d (.initial checked) = .error (.fault failure) t ∧
      failure.fault = .emptyList function) ∨
    ∃ t, runEntry mode depth d (.initial checked) = .error .tooDeep t := by
  obtain ⟨hp, rfl, htyped⟩ := typed_of_accepted h
  have hdeeply : ∀ f ∈ p.declarations, WellTyped deepRules p f :=
    wellTyped_deepRules hp hcalls (wellTyped_callRules hcalls htyped) hdeep
  rcases runEntry_outcome (shapeDiscipline hbuiltins) hdeeply hd (fun hsome => hsome hentry) mode
    depth with hvalue | ⟨failure, t, hrun, function, hempty⟩ | hdeep
  · exact Or.inl hvalue
  · exact Or.inr (Or.inl ⟨failure, t, function, hrun, hempty⟩)
  · exact Or.inr (Or.inr hdeep)

/-- `head(xs: [real]) -> real = head(xs)`. -/
def preludeHead : Declaration where
  number := 1
  name := "head"
  parameters := [⟨"xs", .list default (.primitive default .real), default⟩]
  returns := .primitive default .real
  body := .inline (.call default "head" [.identifier default "xs"])
  span := default

/-- `last(xs: [real]) -> real = if tail(xs) == [] then head(xs) else last(tail(xs))`. -/
def lastElement : Declaration where
  number := 2
  name := "last"
  parameters := [⟨"xs", .list default (.primitive default .real), default⟩]
  returns := .primitive default .real
  body := .inline (.conditional default
    (.binary default .equals (.call default "tail" [.identifier default "xs"])
      (.list default []))
    (.call default "head" [.identifier default "xs"])
    (.call default "last" [.call default "tail" [.identifier default "xs"]]))
  span := default

/-- `main() -> real = last([] ++ [1, 2])`. -/
def lastOfTwo : Declaration where
  number := 3
  name := "main"
  parameters := []
  returns := .primitive default .real
  body := .inline (.call default "last" [.binary default .concat (.list default [])
    (.list default [.number default 1, .number default 2])])
  span := default

/-- A program with the prelude and a recursive function over lists. -/
def deepProgram : Program := ⟨[preludeTail, preludeHead, lastElement, lastOfTwo], default⟩

theorem exists_real_of_asReal {e : Expr} {step : Eval Value} {s : State} {x : Float}
    (h : (asReal e step).run' s = some x) : ∃ t, step s = .ok (.real x) t := by
  unfold EStateM.run' EStateM.run asReal at h
  cases hstep : step s with
  | error halt t =>
    simp only [bind, EStateM.bind, hstep] at h
    cases h
  | ok v t =>
    simp only [bind, EStateM.bind, hstep] at h
    cases v <;> cases h
    exact ⟨t, rfl⟩

/-- The run ends with the last element of the joined list, which is a real. -/
theorem runEntry_hasShape_deepProgram :
    deepProgram.Accepted ⟨deepProgram.signatures, []⟩ ∧ deepProgram.OnlyCallsFunctions ∧
      deepProgram.DeepArguments ⟨deepProgram.signatures, []⟩ ∧ deepProgram.PreludeBuiltins ∧
      ∃ t, runEntry .structural 4 lastOfTwo (.initial ⟨deepProgram.signatures, []⟩) =
          .ok (.real 2) t ∧ HasShape (.real 2) lastOfTwo.output := by
  have haccepted : deepProgram.Accepted ⟨deepProgram.signatures, []⟩ := by decide +kernel
  have hcalls : deepProgram.OnlyCallsFunctions := by decide
  have hdeep : deepProgram.DeepArguments ⟨deepProgram.signatures, []⟩ := by decide +kernel
  have hbuiltins : deepProgram.PreludeBuiltins := ⟨by decide, by decide⟩
  have hentry : lastOfTwo ∈ deepProgram.declarations := by simp [deepProgram]
  obtain ⟨t, hvalue⟩ : ∃ t, runEntry .structural 4 lastOfTwo
      (.initial ⟨deepProgram.signatures, []⟩) = .ok (.real 2) t :=
    exists_real_of_asReal (e := .boolean default true) (by decide +kernel)
  refine ⟨haccepted, hcalls, hdeep, hbuiltins, t, hvalue, ?_⟩
  rcases runEntry_hasShape haccepted hcalls hdeep hbuiltins hentry rfl .structural 4 with
    ⟨v, u, hrun, hshape⟩ | ⟨failure, u, function, hrun, hempty⟩ | ⟨u, hrun⟩
  · rw [hvalue] at hrun
    cases hrun
    exact hshape
  · rw [hvalue] at hrun
    cases hrun
  · rw [hvalue] at hrun
    cases hrun

end Evaluation

end Piecewise
