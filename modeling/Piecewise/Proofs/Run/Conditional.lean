import Piecewise.Evaluation.Program
import Piecewise.Proofs.Typing.JoinOrder
import Piecewise.Proofs.Typing.Resolution

/-!
# Piecewise bodies as nested conditionals

A piecewise body has the value of the conditional of its branches, one inside the other, and the
checker finds the same type for both. It joins the types of the actions from the left in the one
and from the right in the other, and where no action can be joined with the others both fail.
-/

namespace Piecewise

/-- An expression that asks for the guards of branches one after the other, and comes to another
expression when none of them holds. The conditionals may be written anywhere. -/
inductive Nests : List Branch → Expr → Expr → Prop
  | nil {otherwise} : Nests [] otherwise otherwise
  | cons {branch rest otherwise inner} (span : Span) (others : Nests rest otherwise inner) :
      Nests (branch :: rest) otherwise (.conditional span branch.guard branch.action inner)

variable {branches : List Branch} {otherwise e : Expr}

namespace Evaluation

/-- Branches are evaluated as the conditionals that they are. -/
theorem evaluateBranches_of_nests (h : Nests branches otherwise e) (mode : ListEquality)
    (call : Call) : evaluateBranches mode call otherwise branches = evaluate mode call e := by
  induction h with
  | nil => rfl
  | cons span _ ih => rw [evaluateBranches, ih, evaluate]

end Evaluation

namespace Typing

variable {α β : Type} {visit : Declaration → Check Unit} {s t : State} {type : Ty}

/-- The type of nested conditionals joins the types of their actions from the right. -/
theorem infer_of_nests (h : Nests branches otherwise e) :
    infer visit e s = .ok type t ↔
      ∃ found u last, inferBranches visit branches s = .ok found u ∧
        infer visit otherwise u = .ok last t ∧
        (found.map Prod.fst).foldrM Ty.join last = some type := by
  induction h generalizing s t type with
  | nil =>
    simp only [inferBranches, pure_eq_ok_iff]
    constructor
    · exact fun hinfer => ⟨[], s, type, ⟨rfl, rfl⟩, hinfer, rfl⟩
    · rintro ⟨_, _, last, ⟨rfl, rfl⟩, hlast, hjoined⟩
      cases hjoined
      exact hlast
  | cons span _ ih =>
    simp only [infer, inferBranches, bind_eq_ok_iff, lift_eq_ok_iff, pure_eq_ok_iff,
      joinAt_eq_ok_iff, ih]
    constructor
    · rintro ⟨_, u, hguard, a, v, haction, b, _, ⟨found, w, last, hfound, hlast, hb⟩, hab, rfl⟩
      refine ⟨_, w, last, ⟨(), u, hguard, a, v, haction, found, w, hfound, rfl, rfl⟩, hlast, ?_⟩
      rw [List.map_cons, List.foldrM_cons]
      exact Option.bind_eq_some_iff.mpr ⟨b, hb, hab⟩
    · rintro ⟨_, _, last, ⟨_, u, hguard, a, v, haction, found, w, hfound, rfl, rfl⟩, hlast, h⟩
      rw [List.map_cons, List.foldrM_cons] at h
      obtain ⟨b, hb, hab⟩ := Option.bind_eq_some_iff.mp h
      exact ⟨(), u, hguard, a, v, haction, b, t, ⟨found, w, last, hfound, hlast, hb⟩, hab, rfl⟩

theorem leftBy_bind_congr {step : Check α} {next : α → Check β} {γ : Type} {next' : α → Check γ}
    (h : ∀ a u, leftBy (next a u) = leftBy (next' a u)) (s : State) :
    leftBy ((step >>= next) s) = leftBy ((step >>= next') s) := by
  show leftBy (EStateM.bind step next s) = leftBy (EStateM.bind step next' s)
  unfold EStateM.bind
  cases step s with
  | ok a u => exact h a u
  | error d u => rfl

/-- A last step that changes nothing. -/
theorem leftBy_bind_of_still {step : Check α} {next : α → Check β}
    (h : ∀ a u, leftBy (next a u) = u) (s : State) :
    leftBy ((step >>= next) s) = leftBy (step s) := by
  show leftBy (EStateM.bind step next s) = leftBy (step s)
  unfold EStateM.bind
  cases step s with
  | ok a u => exact h a u
  | error d u => rfl

theorem leftBy_lift (outcome : Except Diagnostic α) (s : State) :
    leftBy (lift outcome s) = s := by
  cases outcome <;> rfl

/-- Nested conditionals leave what their parts leave, whether their types can be joined or not. -/
theorem leftBy_infer_of_nests (h : Nests branches otherwise e) (s : State) :
    leftBy (infer visit e s) =
      leftBy ((inferBranches visit branches >>= fun _ => infer visit otherwise) s) := by
  induction h generalizing s with
  | nil => rfl
  | @cons branch rest otherwise inner span _ ih =>
    rw [infer, inferBranches, bind_assoc]
    apply leftBy_bind_congr
    intro _ u
    rw [bind_assoc]
    apply leftBy_bind_congr
    intro a v
    rw [bind_assoc, leftBy_bind_of_still fun b w => leftBy_lift _ w, ih]
    rfl

/-- So does a piecewise body. -/
theorem leftBy_inferBody_piecewise (span : Span) (branches : List Branch) (otherwise : Expr)
    (s : State) :
    leftBy (inferBody visit (.piecewise span branches otherwise) s) =
      leftBy ((inferBranches visit branches >>= fun _ => infer visit otherwise) s) := by
  apply leftBy_bind_congr
  intro found u
  apply leftBy_bind_of_still
  intro last v
  cases found with
  | nil => rfl
  | cons first rest => exact leftBy_lift _ v

/-- Where types are settled it does not matter from which side the types of the actions are
joined. -/
theorem inferBody_of_nests (h : Nests branches otherwise e) (hs : s.scopes.Settled)
    (hv : ∀ d, Keeps s (visit d) fun _ => True) (span : Span) :
    inferBody visit (.piecewise span branches otherwise) s = .ok type t ↔
      inferBody visit (.inline e) s = .ok type t := by
  rw [inferBody_piecewise_eq_ok_iff, inferBody, infer_of_nests h]
  have hjoined : ∀ found u last, inferBranches visit branches s = .ok found u →
      infer visit otherwise u = .ok last t →
      Ty.joinMany (found.map Prod.fst ++ [last]) =
        (found.map Prod.fst).foldrM Ty.join last := by
    intro found u last hfound hlast
    have hbranches := inferBranches_keeps hs hv branches s .start
    rw [hfound] at hbranches
    have hotherwise := infer_keeps hs hv otherwise u hbranches.1
    rw [hlast] at hotherwise
    exact Ty.joinMany_append_singleton last hotherwise.2 hbranches.2
  constructor
  · rintro ⟨found, u, last, hfound, hlast, htype⟩
    rw [hjoined found u last hfound hlast] at htype
    exact ⟨found, u, last, hfound, hlast, htype⟩
  · rintro ⟨found, u, last, hfound, hlast, htype⟩
    rw [← hjoined found u last hfound hlast] at htype
    exact ⟨found, u, last, hfound, hlast, htype⟩

end Typing

open Typing Evaluation in
/-- A piecewise body means the conditional of its branches, one inside the other. It evaluates to
the same in all scopes. In settled scopes, such as any that the checker builds from a program, one
is accepted where the other is, with the same type, and what has been visited then is the same even
where they are not. -/
theorem piecewise_eq_conditional (h : Nests branches otherwise e) (span : Span) :
    (∀ mode call, evaluateBody mode call (.piecewise span branches otherwise) =
      evaluateBody mode call (.inline e)) ∧
    (∀ mode depth, runBody mode depth (.piecewise span branches otherwise) =
      runBody mode depth (.inline e)) ∧
    (∀ s : Typing.State, s.scopes.Settled → ∀ n,
      (∀ type t,
        inferBody (visitWithin n) (.piecewise span branches otherwise) s = .ok type t ↔
          inferBody (visitWithin n) (.inline e) s = .ok type t) ∧
      leftBy (inferBody (visitWithin n) (.piecewise span branches otherwise) s) =
        leftBy (inferBody (visitWithin n) (.inline e) s)) ∧
    ∀ p declared s, Scopes.ofProgram p = .ok declared → Builds (.initial declared) s →
      s.scopes.Settled := by
  have hevaluate : ∀ mode call, evaluateBody mode call (.piecewise span branches otherwise) =
      evaluateBody mode call (.inline e) := evaluateBranches_of_nests h
  refine ⟨hevaluate, ?_, ?_, ?_⟩
  · intro mode depth
    cases depth with
    | zero => rfl
    | succ depth => exact hevaluate mode _
  · intro s hs n
    constructor
    · exact fun type t => inferBody_of_nests h hs (visitWithin_keeps hs n) span
    · rw [leftBy_inferBody_piecewise, inferBody, leftBy_infer_of_nests h]
  · exact fun p declared s hdeclared hbuilds => hbuilds.settled (settled_of_ofProgram hdeclared)

/-- `xs == [] => []`, `odd(xs) => xs`. -/
def emptyOrOdd : List Branch :=
  [⟨.binary default .equals (.identifier default "xs") (.list default []), .list default [],
      default⟩,
    ⟨.call default "odd" [.identifier default "xs"], .identifier default "xs", default⟩]

/-- `if xs == [] then [] else if odd(xs) then xs else tail(xs)`. -/
def emptyOrOddElse : Expr :=
  .conditional default (.binary default .equals (.identifier default "xs") (.list default []))
    (.list default [])
    (.conditional default (.call default "odd" [.identifier default "xs"])
      (.identifier default "xs") (.call default "tail" [.identifier default "xs"]))

/-- A call of `tail` on `[true, false]`, in which `xs` is bound. -/
def tailOfTwo : Evaluation.State :=
  ⟨⟨Typing.parityProgram.signatures,
    [Typing.tailOfBooleans.frame.bind [.list 0 [.boolean true, .boolean false]]]⟩, [], 1⟩

open Typing Evaluation in
/-- In the body of `tail`, whose types must be joined with that of the empty list. In the call both
bodies give the tail of the list. -/
theorem piecewise_eq_conditional_emptyOrOdd :
    Nests emptyOrOdd (.call default "tail" [.identifier default "xs"]) emptyOrOddElse ∧
    (∃ s t, Builds (.initial ⟨parityProgram.globals [], []⟩) s ∧
      inferBody (visitWithin 3) (.piecewise default emptyOrOdd
        (.call default "tail" [.identifier default "xs"])) s = .ok (.list .boolean) t ∧
      inferBody (visitWithin 3) (.inline emptyOrOddElse) s = .ok (.list .boolean) t ∧
      t.visited = ["tail", "even", "odd"]) ∧
    (Value.shown <$> runBody .structural 4 (.piecewise default emptyOrOdd
      (.call default "tail" [.identifier default "xs"]))).run' tailOfTwo = some "[false]" ∧
    (Value.shown <$> runBody .structural 4 (.inline emptyOrOddElse)).run' tailOfTwo =
      some "[false]" := by
  have hnests : Nests emptyOrOdd (.call default "tail" [.identifier default "xs"])
      emptyOrOddElse := .cons default (.cons default .nil)
  have hbuilds : Builds (.initial ⟨parityProgram.globals [], []⟩)
      (.initial ⟨parityProgram.globals [], [tailOfBooleans.frame]⟩) :=
    Builds.declare (.enter .start) ⟨"xs", .list default (.primitive default .bool), default⟩ rfl
  have hvalue : (Value.shown <$> runBody .structural 4 (.inline emptyOrOddElse)).run' tailOfTwo =
      some "[false]" := by
    decide +kernel
  obtain ⟨_, hrun, hinfer, hsettled⟩ := piecewise_eq_conditional hnests default
  have hs := hsettled parityProgram _ _ rfl hbuilds
  refine ⟨hnests, ⟨_, _, hbuilds, rfl, ?_, rfl⟩, ?_⟩
  · exact ((hinfer _ hs 3).1 _ _).mp rfl
  · rw [hrun .structural 4]
    exact ⟨hvalue, hvalue⟩

end Piecewise
