import Piecewise.Proofs.Ty.Order

/-!
# Agreement as unification

A type is refined by putting types in place of elements of lists that are not known, each for
itself, and by changing names of parameters. Two types agree exactly where one type refines both. So
it is elements that are not known, and nothing else, that keep agreement from being transitive.
-/

namespace Piecewise

namespace Ty

mutual

/-- The second type is the first one with elements of lists that are not known replaced by any
types, at any depth, and with names of parameters changed. -/
inductive Refines : Ty → Ty → Prop
  | boolean : Refines boolean boolean
  | real : Refines real real
  | integer : Refines integer integer
  | text : Refines text text
  | unresolved : Refines unresolved unresolved
  | filled {element : Ty} : Refines (list unresolved) (list element)
  | list {a c : Ty} (h : Refines a c) : Refines (list a) (list c)
  | function {ps rs : List (Parameter Ty)} {a c : Ty} (h : RefinesAll ps rs) (k : Refines a c) :
      Refines (function ps a) (function rs c)

/-- There are as many parameters on both sides, and the types of the second ones refine those of the
first ones in order. -/
inductive RefinesAll : List (Parameter Ty) → List (Parameter Ty) → Prop
  | nil : RefinesAll [] []
  | cons {name name' : String} {a c : Ty} {ps rs : List (Parameter Ty)} (h : Refines a c)
      (k : RefinesAll ps rs) : RefinesAll (⟨name, a⟩ :: ps) (⟨name', c⟩ :: rs)

end

mutual

/-- Whether every element of a list in the type is known, at least on the outside. -/
def isFilled : Ty → Bool
  | list element => element.isResolved && element.isFilled
  | function parameters output => allFilled parameters && output.isFilled
  | boolean | real | integer | text | unresolved => true

def allFilled : List (Parameter Ty) → Bool
  | [] => true
  | ⟨_, type⟩ :: rest => type.isFilled && allFilled rest

end

variable {a b c d type : Ty} {ps qs rs : List (Parameter Ty)}

/-! ## Refinement -/

mutual

/-- A type that differs in names of parameters only refines the other. -/
theorem refines_of_nameless_eq : ∀ {a b : Ty}, a.nameless = b.nameless → Refines a b
  | list a, b, h => by
    obtain ⟨b, rfl⟩ := kind_list_iff.mp (kind_eq_of_nameless_eq h).symm
    exact .list (refines_of_nameless_eq (list.inj h))
  | function ps a, b, h => by
    cases b with
    | function qs b =>
      obtain ⟨hps, ha⟩ := function.inj h
      exact .function (refinesAll_of_namelessAll_eq hps) (refines_of_nameless_eq ha)
    | boolean | real | integer | text | list | unresolved => cases h
  | boolean, b, h => by cases b <;> first | exact .boolean | cases h
  | real, b, h => by cases b <;> first | exact .real | cases h
  | integer, b, h => by cases b <;> first | exact .integer | cases h
  | text, b, h => by cases b <;> first | exact .text | cases h
  | unresolved, b, h => by cases b <;> first | exact .unresolved | cases h

theorem refinesAll_of_namelessAll_eq :
    ∀ {ps qs : List (Parameter Ty)}, namelessAll ps = namelessAll qs → RefinesAll ps qs
  | [], [], _ => .nil
  | ⟨_, _⟩ :: _, ⟨_, _⟩ :: _, h => by
    obtain ⟨hfirst, hrest⟩ := List.cons.inj h
    exact .cons (refines_of_nameless_eq (Parameter.mk.inj hfirst).2)
      (refinesAll_of_namelessAll_eq hrest)

end

theorem refines_refl (a : Ty) : Refines a a := refines_of_nameless_eq rfl

mutual

theorem Refines.trans : ∀ {a b c : Ty}, Refines a b → Refines b c → Refines a c
  | _, _, _, .boolean, k | _, _, _, .real, k | _, _, _, .integer, k | _, _, _, .text, k
  | _, _, _, .unresolved, k => k
  | _, _, _, .filled, k => by cases k <;> exact .filled
  | _, _, _, .list h, k => by
    cases k with
    | filled => cases h; exact .filled
    | list k => exact .list (h.trans k)
  | _, _, _, .function h h', .function k k' => .function (h.trans k) (h'.trans k')

theorem RefinesAll.trans : ∀ {ps qs rs : List (Parameter Ty)},
    RefinesAll ps qs → RefinesAll qs rs → RefinesAll ps rs
  | _, _, _, .nil, k => k
  | _, _, _, .cons h h', .cons k k' => .cons (h.trans k) (h'.trans k')

end

mutual

/-- Only names of parameters are changed where every element of a list is known. -/
theorem Refines.nameless_eq :
    ∀ {a c : Ty}, Refines a c → a.isFilled = true → a.nameless = c.nameless
  | _, _, .boolean, _ | _, _, .real, _ | _, _, .integer, _ | _, _, .text, _
  | _, _, .unresolved, _ => rfl
  | _, _, .filled, ha => by cases ha
  | _, _, .list h, ha => congrArg Ty.list (h.nameless_eq (Bool.and_eq_true_iff.mp ha).2)
  | _, _, .function h k, ha => by
    obtain ⟨hps, hout⟩ := Bool.and_eq_true_iff.mp ha
    rw [nameless, nameless, h.namelessAll_eq hps, k.nameless_eq hout]

theorem RefinesAll.namelessAll_eq : ∀ {ps rs : List (Parameter Ty)},
    RefinesAll ps rs → allFilled ps = true → namelessAll ps = namelessAll rs
  | _, _, .nil, _ => rfl
  | _, _, .cons h k, hps => by
    obtain ⟨hfirst, hrest⟩ := Bool.and_eq_true_iff.mp hps
    rw [namelessAll, namelessAll, h.nameless_eq hfirst, k.namelessAll_eq hrest]

end

/-! ## Agreement -/

mutual

/-- Types that one type refines agree. -/
theorem Refines.agrees : ∀ {a b c : Ty}, Refines a c → Refines b c → a.agrees b = true
  | _, _, _, .boolean, k | _, _, _, .real, k | _, _, _, .integer, k | _, _, _, .text, k
  | _, _, _, .unresolved, k => by cases k; rfl
  | _, _, _, .filled, k => by cases k <;> rfl
  | _, _, _, .list h, k => by
    cases k with
    | filled => exact agrees_list_iff.mpr (Or.inr (Or.inl rfl))
    | list k => exact agrees_list_iff.mpr (Or.inr (Or.inr (h.agrees k)))
  | _, _, _, .function h h', .function k k' =>
    Bool.and_eq_true_iff.mpr ⟨h.agreesAll k, h'.agrees k'⟩

theorem RefinesAll.agreesAll : ∀ {ps qs rs : List (Parameter Ty)},
    RefinesAll ps rs → RefinesAll qs rs → agreesAll ps qs = true
  | _, _, _, .nil, .nil => rfl
  | _, _, _, .cons h h', .cons k k' => Bool.and_eq_true_iff.mpr ⟨h.agrees k, h'.agreesAll k'⟩

end

mutual

/-- Types that agree are refined by one type. -/
theorem exists_refines_of_agrees :
    ∀ {a b : Ty}, a.agrees b = true → ∃ c, Refines a c ∧ Refines b c
  | list a, b, h => by
    obtain ⟨b, rfl⟩ := kind_list_iff.mp (kind_of_agrees h).symm
    rcases agrees_list_iff.mp h with ha | hb | hagrees
    · rw [isResolved_eq_false_iff.mp ha]
      exact ⟨list b, .filled, refines_refl _⟩
    · rw [isResolved_eq_false_iff.mp hb]
      exact ⟨list a, refines_refl _, .filled⟩
    · obtain ⟨c, hac, hbc⟩ := exists_refines_of_agrees hagrees
      exact ⟨list c, .list hac, .list hbc⟩
  | function ps a, b, h => by
    cases b with
    | function qs b =>
      obtain ⟨hps, hout⟩ := Bool.and_eq_true_iff.mp h
      obtain ⟨rs, hpsrs, hqsrs⟩ := exists_refinesAll_of_agreesAll hps
      obtain ⟨c, hac, hbc⟩ := exists_refines_of_agrees hout
      exact ⟨function rs c, .function hpsrs hac, .function hqsrs hbc⟩
    | boolean | real | integer | text | list | unresolved => cases h
  | boolean, b, h | real, b, h | integer, b, h | text, b, h | unresolved, b, h => by
    cases b <;> first | exact ⟨_, refines_refl _, refines_refl _⟩ | cases h

theorem exists_refinesAll_of_agreesAll : ∀ {ps qs : List (Parameter Ty)},
    agreesAll ps qs = true → ∃ rs, RefinesAll ps rs ∧ RefinesAll qs rs
  | [], [], _ => ⟨[], .nil, .nil⟩
  | ⟨name, _⟩ :: _, ⟨_, _⟩ :: _, h => by
    obtain ⟨hfirst, hrest⟩ := Bool.and_eq_true_iff.mp h
    obtain ⟨c, hac, hbc⟩ := exists_refines_of_agrees hfirst
    obtain ⟨rs, hps, hqs⟩ := exists_refinesAll_of_agreesAll hrest
    exact ⟨⟨name, c⟩ :: rs, .cons hac hps, .cons hbc hqs⟩

end

/-- Types agree exactly where one type refines both. -/
theorem agrees_iff_exists_refines : a.agrees b = true ↔ ∃ c, Refines a c ∧ Refines b c :=
  ⟨exists_refines_of_agrees, fun ⟨_, hac, hbc⟩ => hac.agrees hbc⟩

/-- Agreement goes on through a type with every element of a list known: it is that type, names of
parameters aside, that refines the types on both sides. -/
theorem agrees_trans (hb : b.isFilled = true) (hab : a.agrees b = true)
    (hbc : b.agrees c = true) : a.agrees c = true := by
  obtain ⟨d, had, hbd⟩ := agrees_iff_exists_refines.mp hab
  obtain ⟨e, hbe, hce⟩ := agrees_iff_exists_refines.mp hbc
  have hnameless : d.nameless = e.nameless := (hbd.nameless_eq hb).symm.trans (hbe.nameless_eq hb)
  exact (had.trans (refines_of_nameless_eq hnameless)).agrees hce

theorem agrees_iff_nameless_eq (ha : a.isFilled = true) (hb : b.isFilled = true) :
    a.agrees b = true ↔ a.nameless = b.nameless := by
  constructor
  · intro h
    obtain ⟨c, hac, hbc⟩ := agrees_iff_exists_refines.mp h
    exact (hac.nameless_eq ha).trans (hbc.nameless_eq hb).symm
  · intro h
    rw [agrees_congr h, agrees_refl]

/-! ## Joins -/

/-- A join agrees with both types. -/
theorem agrees_of_join (h : a.join b = some c) : c.agrees a = true ∧ c.agrees b = true := by
  induction a using listInduction generalizing b c with
  | other a hlist =>
    obtain ⟨hagrees, rfl⟩ := join_eq_some_of_not_list hlist h
    exact ⟨agrees_refl _, hagrees⟩
  | list α ih =>
    obtain ⟨β, γ, rfl, rfl, hγ⟩ := join_list_eq_some h
    rcases joinElements_cases hγ with ⟨rfl, rfl⟩ | ⟨rfl, rfl⟩ | ⟨_, _, hjoin⟩
    · exact ⟨agrees_list_iff.mpr (Or.inr (Or.inl rfl)), agrees_refl _⟩
    · exact ⟨agrees_refl _, agrees_list_iff.mpr (Or.inr (Or.inl rfl))⟩
    · obtain ⟨hleft, hright⟩ := ih hjoin
      exact ⟨agrees_list_iff.mpr (Or.inr (Or.inr hleft)),
        agrees_list_iff.mpr (Or.inr (Or.inr hright))⟩

/-- Lists are joined as types, and nothing else is. -/
theorem joinLists_eq (a b : Ty) :
    a.joinLists b = if a.kind = .list ∧ b.kind = .list then a.join b else none := by
  cases a <;> cases b <;> rfl

/-- Agreement is unification, where elements of lists that are not known are the variables. Hence it
is reflexive, symmetric, blind to names of parameters, transitive through types without such
elements, and between types without them it is equality, names aside. Joins are there exactly where
types agree, and agree with both. -/
theorem agreement_is_unification :
    (∀ a b : Ty, a.agrees b = true ↔ ∃ c, Refines a c ∧ Refines b c) ∧
    (∀ a : Ty, a.agrees a = true) ∧
    (∀ a b : Ty, a.agrees b = b.agrees a) ∧
    (∀ a a' b b' : Ty, a.nameless = a'.nameless → b.nameless = b'.nameless →
      a.agrees b = a'.agrees b') ∧
    (∀ a b c : Ty, b.isFilled = true → a.agrees b = true → b.agrees c = true →
      a.agrees c = true) ∧
    (∀ a b : Ty, a.isFilled = true → b.isFilled = true →
      (a.agrees b = true ↔ a.nameless = b.nameless)) ∧
    (∀ a b : Ty, (a.join b).isSome = true ↔ a.agrees b = true) ∧
    (∀ a b c : Ty, a.join b = some c → c.agrees a = true ∧ c.agrees b = true) ∧
    ∀ a b : Ty, a.joinLists b = if a.kind = .list ∧ b.kind = .list then a.join b else none := by
  refine ⟨fun a b => agrees_iff_exists_refines, agrees_refl, agrees_comm, ?_,
    fun a b c => agrees_trans, fun a b => agrees_iff_nameless_eq, fun a b => join_isSome_iff,
    fun a b c => agrees_of_join, joinLists_eq⟩
  intro a a' b b' ha hb
  rw [← agrees_nameless a, ha, hb, agrees_nameless]

section Open

/-- Functions of a list. -/
def onLists (name : String) (element : Ty) : Ty := .function [⟨name, .list element⟩] .boolean

/-- Functions of empty lists agree with functions of any lists, which need not agree with one
another. Functions of lists of numbers pass agreement on, whatever the parameters are called. -/
theorem agreement_is_unification_onLists :
    (onLists "xs" .unresolved).agrees (onLists "" .real) = true ∧
      (onLists "xs" .unresolved).agrees (onLists "" .boolean) = true ∧
      ¬ (onLists "" .real).agrees (onLists "" .boolean) = true ∧
      (onLists "xs" .unresolved).agrees (onLists "ys" .real) = true := by
  obtain ⟨hunify, hrefl, _, hnames, htrans, hfilled, _, hjoin, _⟩ := agreement_is_unification
  have hopen : (onLists "xs" .unresolved).agrees (onLists "" .real) = true :=
    (hunify _ _).mpr ⟨onLists "zs" .real, .function (.cons .filled .nil) .boolean,
      .function (.cons (.list .real) .nil) .boolean⟩
  have hopen' : (onLists "xs" .unresolved).agrees (onLists "" .boolean) = true :=
    (hjoin (onLists "xs" .unresolved) _ _ rfl).2
  have hrenamed : (onLists "" .real).agrees (onLists "ys" .real) = true :=
    (hnames _ (onLists "" .real) _ (onLists "" .real) rfl rfl).trans (hrefl _)
  refine ⟨hopen, hopen', fun h => ?_, htrans _ _ _ rfl hopen hrenamed⟩
  have hequal := (hfilled _ _ rfl rfl).mp h
  cases hequal

end Open

end Ty

end Piecewise
