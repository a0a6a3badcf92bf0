import Piecewise.Proofs.Typing.Eager
import Piecewise.Proofs.Typing.Settled

/-!
# Where the checker joins types

The elements of a list and the actions of a piecewise body are all typed before it is decided what
their types have in common, so the types that are found are one thing and their join another. The
types are settled, and joins of settled types do not depend on an order.
-/

namespace Piecewise.Typing

variable {visit : Declaration → Check Unit} {s t : State} {type : Ty}

/-- Types of list elements are found and joined in turns, as if all were found first. -/
theorem inferJoined_eq_ok_iff {es : List Expr} {joined : Ty} :
    inferJoined visit type es s = .ok joined t ↔
      ∃ found, inferAll visit es s = .ok found t ∧
        (found.map Prod.fst).foldlM Ty.join type = some joined := by
  induction es generalizing type s with
  | nil => simp [inferJoined, inferAll, pure_eq_ok_iff, and_comm]
  | cons e rest ih =>
    simp only [inferJoined, inferAll, bind_eq_ok_iff, lift_eq_ok_iff, pure_eq_ok_iff,
      joinAt_eq_ok_iff, ih]
    constructor
    · rintro ⟨received, u, hfirst, next, _, ⟨hnext, rfl⟩, found, hrest, hjoined⟩
      refine ⟨_, ⟨received, u, hfirst, found, t, hrest, rfl, rfl⟩, ?_⟩
      rw [List.map_cons, List.foldlM_cons]
      exact Option.bind_eq_some_iff.mpr ⟨next, hnext, hjoined⟩
    · rintro ⟨_, ⟨received, u, hfirst, found, _, hrest, rfl, rfl⟩, hjoined⟩
      rw [List.map_cons, List.foldlM_cons] at hjoined
      obtain ⟨next, hnext, hjoined⟩ := Option.bind_eq_some_iff.mp hjoined
      exact ⟨received, u, hfirst, next, u, ⟨hnext, rfl⟩, found, hrest, hjoined⟩

/-- The type of a list literal is the list of the join of the types of its elements. -/
theorem infer_list_eq_ok_iff {span : Span} {first : Expr} {rest : List Expr} :
    infer visit (.list span (first :: rest)) s = .ok type t ↔
      ∃ found joined, inferAll visit (first :: rest) s = .ok found t ∧
        Ty.joinMany (found.map Prod.fst) = some joined ∧ type = .list joined := by
  simp only [infer, inferAll, bind_eq_ok_iff, pure_eq_ok_iff, inferJoined_eq_ok_iff]
  constructor
  · rintro ⟨a, u, hfirst, joined, _, ⟨found, hrest, hjoined⟩, rfl, rfl⟩
    exact ⟨_, joined, ⟨a, u, hfirst, found, _, hrest, rfl, rfl⟩, hjoined, rfl⟩
  · rintro ⟨_, joined, ⟨a, u, hfirst, found, _, hrest, rfl, rfl⟩, hjoined, rfl⟩
    exact ⟨a, u, hfirst, joined, _, ⟨found, hrest, hjoined⟩, rfl, rfl⟩

/-- The type of a piecewise body is the join of the types of its actions, in order. -/
theorem inferBody_piecewise_eq_ok_iff {span : Span} {branches : List Branch} {otherwise : Expr} :
    inferBody visit (.piecewise span branches otherwise) s = .ok type t ↔
      ∃ found u last, inferBranches visit branches s = .ok found u ∧
        infer visit otherwise u = .ok last t ∧
        Ty.joinMany (found.map Prod.fst ++ [last]) = some type := by
  rw [inferBody, bind_eq_ok_iff]
  constructor
  · rintro ⟨found, u, hfound, h⟩
    obtain ⟨last, v, hlast, h⟩ := bind_eq_ok_iff.mp h
    refine ⟨found, u, last, hfound, ?_⟩
    cases found with
    | nil =>
      obtain ⟨rfl, rfl⟩ := pure_eq_ok_iff.mp h
      exact ⟨hlast, rfl⟩
    | cons first rest =>
      obtain ⟨hjoined, rfl⟩ := lift_eq_ok_iff.mp h
      exact ⟨hlast, by simpa [Ty.joinMany] using joinAll_eq_ok_iff.mp hjoined⟩
  · rintro ⟨found, u, last, hfound, hlast, hjoined⟩
    refine ⟨found, u, hfound, bind_eq_ok_iff.mpr ⟨last, t, hlast, ?_⟩⟩
    cases found with
    | nil =>
      cases hjoined
      rfl
    | cons first rest =>
      have hall : joinAll first.1 (rest ++ [(last, otherwise.start)]) = .ok type :=
        joinAll_eq_ok_iff.mpr (by simpa [Ty.joinMany] using hjoined)
      exact lift_eq_ok_iff.mpr ⟨hall, rfl⟩

theorem pairwise_agrees_iff {ts : List Ty} :
    (ts.Pairwise fun a b => a.agrees b = true) ↔ ∀ a ∈ ts, ∀ b ∈ ts, a.agrees b = true := by
  have hsymm : Std.Symm fun a b : Ty => a.agrees b = true :=
    ⟨fun a b h => by rwa [Ty.agrees_comm]⟩
  constructor
  · exact List.Pairwise.forall_of_forall fun a _ => Ty.agrees_refl a
  · exact List.pairwise_of_forall_mem_list

/-- Settled types have a join where every two of them agree, it is their least upper bound, and
their order does not matter to it. This is how elements of lists and actions of bodies are joined,
and whatever state the checker has built from a program, the types that it finds are settled. -/
theorem joined_in_any_order :
    (∀ ts : List Ty, ts ≠ [] → (∀ a ∈ ts, a.isSettled = true) →
      ((Ty.joinMany ts).isSome = true ↔ ∀ a ∈ ts, ∀ b ∈ ts, a.agrees b = true) ∧
      (∀ type, Ty.joinMany ts = some type → IsLUB {a | a ∈ ts} type) ∧
      ∀ us, ts.Perm us → (Ty.joinMany ts).map Ty.nameless = (Ty.joinMany us).map Ty.nameless) ∧
    (∀ visit span first rest s type t,
      infer visit (.list span (first :: rest)) s = .ok type t ↔
        ∃ found joined, inferAll visit (first :: rest) s = .ok found t ∧
          Ty.joinMany (found.map Prod.fst) = some joined ∧ type = .list joined) ∧
    (∀ visit span branches otherwise s type t,
      inferBody visit (.piecewise span branches otherwise) s = .ok type t ↔
        ∃ found u last, inferBranches visit branches s = .ok found u ∧
          infer visit otherwise u = .ok last t ∧
          Ty.joinMany (found.map Prod.fst ++ [last]) = some type) ∧
    ∀ p declared s, Scopes.ofProgram p = .ok declared → Builds (.initial declared) s →
      ∀ n e type t, infer (visitWithin n) e s = .ok type t →
        Builds (.initial declared) t ∧ type.isSettled = true := by
  refine ⟨fun ts hne hts => ⟨?_, ?_, ?_⟩, ?_, ?_, ?_⟩
  · rw [Ty.joinMany_isSome_iff hne hts, pairwise_agrees_iff]
  · exact fun type h => Ty.isLUB_joinMany hts h
  · exact fun us hperm => Ty.joinMany_perm hperm hts
  · exact fun visit span first rest s type t => infer_list_eq_ok_iff
  · exact fun visit span branches otherwise s type t => inferBody_piecewise_eq_ok_iff
  · intro p declared s hdeclared hbuilds n e type t hinfer
    have hs : (State.initial declared).scopes.Settled := settled_of_ofProgram hdeclared
    have hkeeps := infer_keeps hs (visitWithin_keeps hs n) e s hbuilds
    rw [hinfer] at hkeeps
    exact hkeeps

/-- `[[], tail([]), [true]]`, where an empty list of no type stands before a list of booleans. -/
def emptyFirst : Expr :=
  .list default [.list default [], .call default "tail" [.list default []],
    .list default [.boolean default true]]

theorem joined_in_any_order_emptyFirst :
    (∃ t, infer (visitWithin 3) emptyFirst (.initial ⟨parityProgram.globals [], []⟩) =
      .ok (.list (.list .boolean)) t ∧ Ty.isSettled (.list (.list .boolean)) = true) ∧
    Ty.joinMany [.list .unresolved, .list .boolean] = some (.list .boolean) ∧
    IsLUB {a | a ∈ [Ty.list .unresolved, .list .boolean]} (.list .boolean) ∧
    (Ty.joinMany [.list .unresolved, .list .boolean]).map Ty.nameless =
      (Ty.joinMany [.list .boolean, .list .unresolved]).map Ty.nameless := by
  obtain ⟨hjoins, _, _, hstates⟩ := joined_in_any_order
  obtain ⟨_, hleast, hperm⟩ := hjoins [.list .unresolved, .list .boolean] (by simp) (by decide)
  refine ⟨⟨_, rfl, ?_⟩, rfl, hleast _ rfl, hperm _ (by decide)⟩
  exact (hstates parityProgram _ _ rfl .start 3 emptyFirst _ _ rfl).2

end Piecewise.Typing
