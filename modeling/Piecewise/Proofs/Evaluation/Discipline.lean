import Piecewise.Evaluation.Program
import Piecewise.Proofs.Typing.Rules

/-!
# Disciplines

A discipline says what the values of a type are like and which faults a run may end in, such that
every operation of a run keeps to it. What the rules of typing leave open, and how much of a type
the values show, differs from one discipline to the next. What follows from the closure under
every operation does not, and is proved once for all of them.
-/

namespace Piecewise

namespace Evaluation

open Typing

/-- What the values of a type are like, and which faults there may be, with a law for every
operation on values. -/
structure Discipline (R : Rules) (p : Program) where
  /-- Whether an expression of the type may have the value. -/
  fits : Value → Ty → Prop
  /-- Whether a run may end in the fault. -/
  allows : Fault → Prop
  /-- Whether a parameter may be without a value. -/
  unbound : Prop
  boolean : ∀ b, fits (.boolean b) .boolean
  real : ∀ x, fits (.real x) .real
  text : ∀ s, fits (.text s) .text
  list : ∀ i vs type, (∀ v ∈ vs, fits v type) → fits (.list i vs) (.list type)
  ofBoolean : ∀ v, fits v .boolean →
    (∃ b, v = .boolean b) ∨ allows (.wrongKind "bool" v.kindName)
  ofReal : ∀ v, fits v .real → (∃ x, v = .real x) ∨ allows (.wrongKind "real" v.kindName)
  ofList : ∀ v type, fits v (.list type) →
    (∃ i vs, v = .list i vs) ∨ allows (.wrongKind "list" v.kindName)
  joinLeft : ∀ v (a b type : Ty), a.join b = some type → fits v a → fits v type
  joinRight : ∀ v (a b type : Ty), a.join b = some type → fits v b → fits v type
  append : ∀ i vs j ws k type, fits (.list i vs) type → fits (.list j ws) type →
    fits (.list k (vs ++ ws)) type
  compared : ∀ mode place v w (a b : Ty) d, fits v a → fits w b → a.sameKind b = true →
    Value.equal mode place v w = .error d → allows d.fault
  passed : ∀ v (a : Ty) (t : TypeExpr), fits v a → R.accepts t.toTy a → fits v t.toTy
  returned : ∀ v (a : Ty) (t : TypeExpr), fits v a → a.agrees t.toTy = true → fits v t.toTy
  functionValue : R.functionValues → ∀ f type, fits (.function f) type
  functionDropped : ∀ f type, fits (.function f) type → unbound
  functionCalled : ∀ v inputs output name, fits v (.function inputs output) →
    allows (.unboundFunction name)
  typeValue : unbound → ∀ type, fits (.type type) type
  unboundIdentifier : unbound → ∀ name, allows (.unboundIdentifier name)
  unboundFunction : unbound → ∀ name, allows (.unboundFunction name)
  builtin : ∀ f ∈ p.declarations, ∀ b, Builtin.ofName? f.name = some b →
    ∀ fresh values place, List.Forall₂ (fun v input => fits v input.type) values f.inputs →
      (∀ v, b.apply fresh values place = .ok v → fits v f.output) ∧
        ∀ d, b.apply fresh values place = .error d → allows d.fault

namespace Discipline

variable {R : Rules} {p : Program} (D : Discipline R p)

theorem fits_foldlM_join {v : Value} : ∀ {types : List Ty} {first type : Ty},
    types.foldlM Ty.join first = some type → (D.fits v first ∨ ∃ a ∈ types, D.fits v a) →
    D.fits v type := by
  intro types
  induction types with
  | nil =>
    intro first type hfold hv
    cases hfold
    rcases hv with hv | ⟨a, ha, _⟩
    · exact hv
    · cases ha
  | cons next types ih =>
    intro first type hfold hv
    rw [List.foldlM_cons] at hfold
    cases hjoin : first.join next with
    | none => rw [hjoin] at hfold; cases hfold
    | some joined =>
      rw [hjoin] at hfold
      refine ih hfold ?_
      rcases hv with hv | ⟨a, ha, hv⟩
      · exact Or.inl (D.joinLeft v first next joined hjoin hv)
      · rcases List.mem_cons.mp ha with rfl | ha
        · exact Or.inl (D.joinRight v first a joined hjoin hv)
        · exact Or.inr ⟨a, ha, hv⟩

/-- A value that fits one of several types fits their join. -/
theorem fits_joinMany {v : Value} {types : List Ty} {a type : Ty}
    (hjoined : Ty.joinMany types = some type) (ha : a ∈ types) (hv : D.fits v a) :
    D.fits v type := by
  cases types with
  | nil => cases ha
  | cons first rest =>
    refine D.fits_foldlM_join hjoined ?_
    rcases List.mem_cons.mp ha with rfl | ha
    · exact Or.inl hv
    · exact Or.inr ⟨a, ha, hv⟩

/-- The values of list elements fit the join of the types of these. -/
theorem fits_elements {values : List Value} {types : List Ty} {type : Ty}
    (hjoined : Ty.joinMany types = some type) (hvalues : List.Forall₂ D.fits values types) :
    ∀ v ∈ values, D.fits v type := by
  intro v hv
  obtain ⟨a, ha, hfits⟩ : ∃ a ∈ types, D.fits v a := by
    clear hjoined
    induction hvalues with
    | nil => cases hv
    | cons hfirst _ ih =>
      rcases List.mem_cons.mp hv with rfl | hv
      · exact ⟨_, List.mem_cons_self, hfirst⟩
      · obtain ⟨a, ha, hfits⟩ := ih hv
        exact ⟨a, List.mem_cons_of_mem _ ha, hfits⟩
  exact D.fits_joinMany hjoined ha hfits

/-- The values of accepted arguments fit the parameters. -/
theorem fits_arguments {f : Declaration} {values : List Value} {types : List Ty}
    (hvalues : List.Forall₂ D.fits values types)
    (haccepted : List.Forall₂ (fun input type => R.accepts input.type type) f.inputs types) :
    List.Forall₂ (fun v input => D.fits v input.type) values f.inputs := by
  unfold Declaration.inputs at *
  generalize f.parameters = qs at *
  induction hvalues generalizing qs with
  | nil =>
    cases qs with
    | nil => exact .nil
    | cons q qs => cases haccepted
  | cons hfirst _ ih =>
    cases qs with
    | nil => cases haccepted
    | cons q qs =>
      cases haccepted with
      | cons haccept hrest => exact .cons (D.passed _ _ q.type hfirst haccept) (ih qs hrest)

end Discipline

end Evaluation

end Piecewise
