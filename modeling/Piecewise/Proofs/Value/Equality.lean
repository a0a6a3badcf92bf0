import Mathlib
import Piecewise.Value.Equality

/-!
# Laws of `==`

The operator `==` is symmetric, and on lists it is an equivalence in either mode: as an element, a
real that is not a number equals every other such real, though `==` on the reals themselves does
not hold. What is equal where identity is checked is equal element by element. Where one allocation
has one content, identity is what decides of lists within lists.

Elements that are equal are related by a relation of their own; the laws are proved of the relation.
-/

namespace Piecewise

namespace Value

/-! ## Reals -/

theorem beq_self_of_number {x : Float} (h : x.isNaN = false) : (x == x) = true := by
  rw [Float.isNaN_eq_decide_eq_nan, decide_eq_false_iff_not] at h
  exact Float.beq_self_iff.mpr h

/-- A real that is not a number equals none. -/
theorem number_of_beq {x y : Float} (h : (x == y) = true) :
    x.isNaN = false ∧ y.isNaN = false := by
  obtain ⟨hx, hy, _⟩ := Float.beq_iff_ne_nan_and_eq.mp h
  simp [hx, hy]

/-! ## Equal elements -/

/-- Values that are equal as elements of lists. -/
inductive EqualElements (mode : ListEquality) : Value → Value → Prop
  | boolean (b : Bool) : EqualElements mode (.boolean b) (.boolean b)
  | real {x y : Float} (h : (x == y) = true) : EqualElements mode (.real x) (.real y)
  | noNumber {x y : Float} (hx : x.isNaN = true) (hy : y.isNaN = true) :
      EqualElements mode (.real x) (.real y)
  | text (s : String) : EqualElements mode (.text s) (.text s)
  | list {i j : Nat} {vs ws : List Value} (elements : List.Forall₂ (EqualElements mode) vs ws)
      (allocation : mode = .structural ∨ i = j) : EqualElements mode (.list i vs) (.list j ws)
  | function {d e : Declaration} (h : d.number = e.number) :
      EqualElements mode (.function d) (.function e)
  | type (t : Ty) : EqualElements mode (.type t) (.type t)

variable {mode : ListEquality} {place : Position} {i j : Nat} {v w : Value} {vs ws : List Value}

mutual

theorem elementsEqual_iff : ∀ {v w : Value},
    elementsEqual mode v w = true ↔ EqualElements mode v w
  | .list i vs, w => by
    cases w with
    | list j ws =>
      rw [elementsEqual, Bool.and_eq_true, listsEqual_iff, Bool.or_eq_true]
      constructor
      · rintro ⟨hvs, hsame⟩
        exact .list hvs (by simpa using hsame)
      · rintro ⟨⟩
        rename_i hsame hvs
        exact ⟨hvs, by simpa using hsame⟩
    | boolean | real | text | function | type => exact ⟨nofun, nofun⟩
  | .real x, w => by
    cases w with
    | real y =>
      rw [elementsEqual, Bool.or_eq_true, Bool.and_eq_true]
      constructor
      · rintro (h | ⟨hx, hy⟩)
        · exact .real h
        · exact .noNumber hx hy
      · intro h
        cases h with
        | real h => exact Or.inl h
        | noNumber hx hy => exact Or.inr ⟨hx, hy⟩
    | boolean | text | list | function | type => exact ⟨nofun, nofun⟩
  | .boolean a, w => by
    cases w with
    | boolean b =>
      refine decide_eq_true_iff.trans ⟨fun h => h ▸ .boolean a, ?_⟩
      rintro ⟨⟩
      rfl
    | real | text | list | function | type => exact ⟨nofun, nofun⟩
  | .text a, w => by
    cases w with
    | text b =>
      refine decide_eq_true_iff.trans ⟨fun h => h ▸ .text a, ?_⟩
      rintro ⟨⟩
      rfl
    | boolean | real | list | function | type => exact ⟨nofun, nofun⟩
  | .type a, w => by
    cases w with
    | type b =>
      refine decide_eq_true_iff.trans ⟨fun h => h ▸ .type a, ?_⟩
      rintro ⟨⟩
      rfl
    | boolean | real | text | list | function => exact ⟨nofun, nofun⟩
  | .function d, w => by
    cases w with
    | function e =>
      refine decide_eq_true_iff.trans ⟨.function, ?_⟩
      rintro ⟨⟩
      assumption
    | boolean | real | text | list | type => exact ⟨nofun, nofun⟩

theorem listsEqual_iff : ∀ {vs ws : List Value},
    listsEqual mode vs ws = true ↔ List.Forall₂ (EqualElements mode) vs ws
  | [], [] => ⟨fun _ => .nil, fun _ => rfl⟩
  | [], _ :: _ => ⟨nofun, nofun⟩
  | _ :: _, [] => ⟨nofun, nofun⟩
  | v :: vs, w :: ws => by
    rw [listsEqual, Bool.and_eq_true, elementsEqual_iff, listsEqual_iff, List.forall₂_cons]

end

namespace EqualElements

mutual

/-- Every value equals itself as an element, also where a real in it is not a number. -/
theorem refl (mode : ListEquality) : ∀ v : Value, EqualElements mode v v
  | .list _ vs => .list (reflAll mode vs) (Or.inr rfl)
  | .real x => by
    cases h : x.isNaN with
    | true => exact .noNumber h h
    | false => exact .real (beq_self_of_number h)
  | .boolean b => .boolean b
  | .text s => .text s
  | .function _ => .function rfl
  | .type t => .type t

theorem reflAll (mode : ListEquality) : ∀ vs : List Value,
    List.Forall₂ (EqualElements mode) vs vs
  | [] => .nil
  | v :: vs => .cons (refl mode v) (reflAll mode vs)

end

mutual

theorem symm : ∀ {v w : Value}, EqualElements mode v w → EqualElements mode w v
  | .list _ _, _, .list hvs hsame => .list (symmAll hvs) (hsame.imp_right Eq.symm)
  | .real _, _, .real h => .real (BEq.symm h)
  | .real _, _, .noNumber hx hy => .noNumber hy hx
  | .boolean _, _, .boolean b => .boolean b
  | .text _, _, .text s => .text s
  | .function _, _, .function h => .function h.symm
  | .type _, _, .type t => .type t

theorem symmAll : ∀ {vs ws : List Value}, List.Forall₂ (EqualElements mode) vs ws →
    List.Forall₂ (EqualElements mode) ws vs
  | [], _, .nil => .nil
  | _ :: _, _, .cons hv hvs => .cons (symm hv) (symmAll hvs)

end

/-- Equal reals are both numbers or both not, so equality passes from one to the next. -/
theorem trans_real {x y : Float} (h : (x == y) = true) (k : EqualElements mode (.real y) w) :
    EqualElements mode (.real x) w := by
  cases k with
  | real k => exact .real (BEq.trans h k)
  | noNumber hy _ =>
    rw [(number_of_beq h).2] at hy
    cases hy

theorem trans_noNumber {x y : Float} (hx : x.isNaN = true) (hy : y.isNaN = true)
    (k : EqualElements mode (.real y) w) : EqualElements mode (.real x) w := by
  cases k with
  | real k =>
    rw [(number_of_beq k).1] at hy
    cases hy
  | noNumber _ hz => exact .noNumber hx hz

mutual

theorem trans : ∀ {u v w : Value},
    EqualElements mode u v → EqualElements mode v w → EqualElements mode u w
  | .list _ _, _, _, .list hus hsame, .list hvs hsame' =>
    .list (transAll hus hvs) (hsame.elim Or.inl fun hij => hsame'.imp_right hij.trans)
  | .real _, _, _, .real h, k => trans_real h k
  | .real _, _, _, .noNumber hx hy, k => trans_noNumber hx hy k
  | .boolean _, _, _, .boolean _, k => k
  | .text _, _, _, .text _, k => k
  | .function _, _, _, .function h, .function k => .function (h.trans k)
  | .type _, _, _, .type _, k => k

theorem transAll : ∀ {us vs ws : List Value}, List.Forall₂ (EqualElements mode) us vs →
    List.Forall₂ (EqualElements mode) vs ws → List.Forall₂ (EqualElements mode) us ws
  | [], _, _, .nil, k => k
  | _ :: _, _, _, .cons hu hus, .cons hv hvs => .cons (trans hu hv) (transAll hus hvs)

end

mutual

/-- Where identity is checked, less is equal. -/
theorem structural : ∀ {v w : Value},
    EqualElements .identityChecked v w → EqualElements .structural v w
  | .list _ _, _, .list hvs _ => .list (structuralAll hvs) (Or.inl rfl)
  | .real _, _, .real h => .real h
  | .real _, _, .noNumber hx hy => .noNumber hx hy
  | .boolean _, _, .boolean b => .boolean b
  | .text _, _, .text s => .text s
  | .function _, _, .function h => .function h
  | .type _, _, .type t => .type t

theorem structuralAll : ∀ {vs ws : List Value},
    List.Forall₂ (EqualElements .identityChecked) vs ws →
      List.Forall₂ (EqualElements .structural) vs ws
  | [], _, .nil => .nil
  | _ :: _, _, .cons hv hvs => .cons (structural hv) (structuralAll hvs)

end

end EqualElements

/-! ## Identity of lists within lists -/

/-- Values in which one allocation has one content: every list, at any depth, has the elements that
its allocation holds. -/
inductive Allocated (content : Nat → List Value) : Value → Prop
  | boolean (b : Bool) : Allocated content (.boolean b)
  | real (x : Float) : Allocated content (.real x)
  | text (s : String) : Allocated content (.text s)
  | list {i : Nat} (h : ∀ v ∈ content i, Allocated content v) :
      Allocated content (.list i (content i))
  | function (d : Declaration) : Allocated content (.function d)
  | type (t : Ty) : Allocated content (.type t)

/-- Elements that are the very same list, or equal element by element where they are not both
lists. -/
def SameElement : Value → Value → Prop
  | list i _, list j _ => i = j
  | v, w => elementsEqual .structural v w = true

/-- Identity is asked of lists only. -/
theorem equalElements_identity_iff (h : ∀ i vs, v ≠ .list i vs) :
    EqualElements .identityChecked v w ↔ EqualElements .structural v w := by
  refine ⟨EqualElements.structural, fun k => ?_⟩
  cases k with
  | list _ _ => exact absurd rfl (h _ _)
  | real k => exact .real k
  | noNumber hx hy => exact .noNumber hx hy
  | boolean b => exact .boolean b
  | text s => exact .text s
  | function k => exact .function k
  | type t => exact .type t

theorem Allocated.mem {content : Nat → List Value} (h : Allocated content (.list i vs))
    (hv : v ∈ vs) : Allocated content v := by
  cases h with
  | list h => exact h v hv

/-- Where one allocation has one content, lists with the same allocation are equal. -/
theorem equalElements_iff_sameElement {content : Nat → List Value} (hv : Allocated content v)
    (hw : Allocated content w) :
    EqualElements .identityChecked v w ↔ SameElement v w := by
  cases hv with
  | @list i _ =>
    cases hw with
    | @list j _ =>
      constructor
      · intro h
        cases h with
        | list _ hsame => exact hsame.resolve_left nofun
      · intro h
        have hij : i = j := h
        exact hij ▸ .refl _ _
    | boolean | real | text | function | type => exact elementsEqual_iff.symm
  | boolean | real | text | function | type =>
    refine (equalElements_identity_iff ?_).trans elementsEqual_iff.symm
    nofun

/-- Where identity is checked, two lists are equal if they have the same length and the same
elements, one by one. -/
theorem forall₂_identity_iff {content : Nat → List Value} (hvs : Allocated content (.list i vs))
    (hws : Allocated content (.list j ws)) :
    List.Forall₂ (EqualElements .identityChecked) vs ws ↔
      vs.length = ws.length ∧ ∀ pair ∈ vs.zip ws, SameElement pair.1 pair.2 := by
  rw [List.forall₂_iff_zip, Prod.forall]
  refine and_congr_right fun _ => forall₂_congr fun v w => imp_congr_right fun hpair => ?_
  obtain ⟨hv, hw⟩ := List.of_mem_zip hpair
  exact equalElements_iff_sameElement (hvs.mem hv) (hws.mem hw)

/-! ## Equality in depth -/

mutual

/-- Whether the value is, or holds at some depth, a real that is not a number. -/
def holdsNoNumber : Value → Bool
  | real x => x.isNaN
  | list _ elements => anyHoldsNoNumber elements
  | boolean _ | text _ | function _ | type _ => false

def anyHoldsNoNumber : List Value → Bool
  | [] => false
  | v :: rest => v.holdsNoNumber || anyHoldsNoNumber rest

end

mutual

/-- Without reals that are not numbers, to be equal element by element is to be the same in
depth. -/
theorem elementsEqual_eq_deepEqual : ∀ {v : Value}, v.holdsNoNumber = false →
    ∀ w, elementsEqual .structural v w = deepEqual v w
  | .list _ _, h, w => by
    cases w with
    | list j ws =>
      rw [elementsEqual, deepEqual, listsEqual_eq_deepEqualAll h]
      simp
    | boolean | real | text | function | type => rfl
  | .real x, h, w => by
    cases w with
    | real y =>
      have hx : x.isNaN = false := h
      rw [elementsEqual, hx]
      simp [deepEqual, scalarsEqual]
    | boolean | list | text | function | type => rfl
  | .boolean _, _, w | .text _, _, w | .function _, _, w | .type _, _, w => by
    cases w <;> rfl

theorem listsEqual_eq_deepEqualAll : ∀ {vs : List Value}, anyHoldsNoNumber vs = false →
    ∀ ws, listsEqual .structural vs ws = deepEqualAll vs ws
  | [], _, ws => by cases ws <;> rfl
  | v :: vs, h, ws => by
    obtain ⟨hv, hvs⟩ := Bool.or_eq_false_iff.mp h
    cases ws with
    | nil => rfl
    | cons w ws =>
      rw [listsEqual, deepEqualAll, elementsEqual_eq_deepEqual hv,
        listsEqual_eq_deepEqualAll hvs]

end

/-! ## The operator -/

theorem equal_lists_iff : equal mode place (.list i vs) (.list j ws) = .ok true ↔
    List.Forall₂ (EqualElements mode) vs ws := by
  rw [← listsEqual_iff]
  exact ⟨Except.ok.inj, congrArg _⟩

theorem scalarsEqual_comm (v w : Value) : scalarsEqual w v = scalarsEqual v w := by
  cases v <;> cases w <;> simp only [scalarsEqual, eq_comm, BEq.comm]

theorem listsEqual_comm (vs ws : List Value) : listsEqual mode ws vs = listsEqual mode vs ws := by
  rw [Bool.eq_iff_iff, listsEqual_iff, listsEqual_iff]
  exact ⟨EqualElements.symmAll, EqualElements.symmAll⟩

theorem equal_comm (v w : Value) : equal mode place w v = equal mode place v w := by
  cases v with
  | list i vs =>
    cases w with
    | list j ws => rw [equal, equal, listsEqual_comm]
    | boolean | real | text | function | type => rfl
  | function d => cases w <;> rfl
  | type a => cases w <;> rfl
  | boolean | real | text => cases w <;> exact congrArg _ (scalarsEqual_comm _ _)

/-- Only two functions, or two types, cannot be compared. -/
theorem equal_error_iff : (∃ d, equal mode place v w = .error d) ↔
    (∃ d e, v = .function d ∧ w = .function e) ∨ ∃ a b, v = .type a ∧ w = .type b := by
  cases v <;> cases w <;> simp [equal]

theorem equal_structural (h : equal .identityChecked place v w = .ok true) :
    equal .structural place v w = .ok true := by
  cases v with
  | list i vs =>
    cases w with
    | list j ws =>
      exact equal_lists_iff.mpr (EqualElements.structuralAll (equal_lists_iff.mp h))
    | boolean | real | text | function | type => exact h
  | boolean | real | text | function | type => cases w <;> exact h

/-- Laws of `==`. It fails of two functions and of two types only, and is symmetric; on lists it is
reflexive and transitive, whatever reals they hold. What is equal where identity is checked is
equal element by element. Where one allocation has one content, checking identity asks of two lists
that they have the same length, that lists in them are the very same as their counterparts, and that
all other elements are equal. Without reals that are not numbers, lists that are equal element by
element are the same in depth. -/
theorem equal_laws (mode : ListEquality) (place : Position) :
    (∀ v w, (∃ d, equal mode place v w = .error d) ↔
      (∃ d e, v = .function d ∧ w = .function e) ∨ ∃ a b, v = .type a ∧ w = .type b) ∧
    (∀ v w, equal mode place w v = equal mode place v w) ∧
    (∀ i vs, equal mode place (.list i vs) (.list i vs) = .ok true) ∧
    (∀ i j k us vs ws, equal mode place (.list i us) (.list j vs) = .ok true →
      equal mode place (.list j vs) (.list k ws) = .ok true →
      equal mode place (.list i us) (.list k ws) = .ok true) ∧
    (∀ v w, equal .identityChecked place v w = .ok true →
      equal .structural place v w = .ok true) ∧
    (∀ content i j vs ws, Allocated content (.list i vs) → Allocated content (.list j ws) →
      (equal .identityChecked place (.list i vs) (.list j ws) = .ok true ↔
        vs.length = ws.length ∧ ∀ pair ∈ vs.zip ws, SameElement pair.1 pair.2)) ∧
    ∀ i j vs ws, anyHoldsNoNumber vs = false → anyHoldsNoNumber ws = false →
      equal .structural place (.list i vs) (.list j ws) =
        .ok (deepEqual (.list i vs) (.list j ws)) := by
  refine ⟨fun v w => equal_error_iff, equal_comm, fun i vs => ?_, fun i j k us vs ws h k => ?_,
    fun v w => equal_structural, fun content i j vs ws hvs hws => ?_, fun i j vs ws h _ => ?_⟩
  · exact equal_lists_iff.mpr (EqualElements.reflAll mode vs)
  · exact equal_lists_iff.mpr
      (EqualElements.transAll (equal_lists_iff.mp h) (equal_lists_iff.mp k))
  · exact equal_lists_iff.trans (forall₂_identity_iff hvs hws)
  · rw [equal, deepEqual, listsEqual_eq_deepEqualAll h]

section InnerLists

/-- `[0 / 0, [true]]`, where the list within has the given allocation. -/
def withInner (inner : Nat) : List Value := [.real (0 / 0), .list inner [.boolean true]]

/-- What allocations hold when there are two such lists, with lists of their own in them. -/
def innerContent : Nat → List Value
  | 0 => withInner 1
  | 1 => [.boolean true]
  | 2 => withInner 3
  | 3 => [.boolean true]
  | _ => []

theorem allocated_inner {i inner : Nat} (hi : innerContent i = withInner inner)
    (h : innerContent inner = [.boolean true]) :
    Allocated innerContent (.list i (withInner inner)) := by
  rw [← hi]
  refine .list (hi ▸ List.forall_mem_cons.mpr ⟨.real _, List.forall_mem_singleton.mpr ?_⟩)
  rw [← h]
  exact .list (h ▸ List.forall_mem_singleton.mpr (.boolean true))

/-- The two lists are equal element by element, and each equals itself. Where identity is checked
they are not equal, since the lists within are two. -/
theorem equal_laws_innerLists :
    equal .identityChecked default (.list 0 (withInner 1)) (.list 0 (withInner 1)) = .ok true ∧
    equal .structural default (.list 0 (withInner 1)) (.list 0 (withInner 1)) = .ok true ∧
    equal .structural default (.list 0 (withInner 1)) (.list 2 (withInner 3)) = .ok true ∧
    equal .structural default (.list 2 (withInner 3)) (.list 2 (withInner 3)) = .ok true ∧
    equal .identityChecked default (.list 0 (withInner 1)) (.list 2 (withInner 3)) ≠ .ok true ∧
    equal .structural default (.list 1 [.boolean true]) (.list 3 [.boolean true]) =
      .ok (deepEqual (.list 1 [.boolean true]) (.list 3 [.boolean true])) := by
  obtain ⟨_, hcomm, _, htrans, _⟩ := equal_laws .structural default
  obtain ⟨_, _, hrefl, _, hstructural, hidentity, hdeep⟩ := equal_laws .identityChecked default
  have hself := hrefl 0 (withInner 1)
  have hequal : equal .structural default (.list 0 (withInner 1)) (.list 2 (withInner 3)) =
      .ok true := rfl
  refine ⟨hself, hstructural _ _ hself, hequal, ?_, ?_, hdeep 1 3 _ _ rfl rfl⟩
  · exact htrans 2 0 2 _ _ _ ((hcomm _ _).trans hequal) hequal
  · have hinner := hidentity innerContent 0 2 (withInner 1) (withInner 3)
      (allocated_inner rfl rfl) (allocated_inner rfl rfl)
    intro h
    have hsame := (hinner.mp h).2 (.list 1 [.boolean true], .list 3 [.boolean true])
      (by simp [withInner])
    exact absurd hsame (by decide : (1 : Nat) ≠ 3)

end InnerLists

end Value

end Piecewise
