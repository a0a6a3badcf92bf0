import Piecewise.Proofs.Ty.Order

/-!
# Types as messages show them

What a message shows of a type is its type without the names of parameters. The first character
tells the kind of a type, and where a type ends can be told without looking past its end. So types
that are shown alike differ in names of parameters only, and every comparison takes them to be the
same.
-/

namespace Piecewise

namespace Ty

/-- The first character of the types of a kind, as they are shown. -/
def Kind.initial : Kind → Char
  | boolean => 'b'
  | real => 'r'
  | integer => 'i'
  | text => 's'
  | list => '['
  | function => '('
  | unresolved => '?'

theorem Kind.initial_injective : Function.Injective initial := by
  intro k l h
  cases k <;> cases l <;> first | rfl | cases h

/-- Parameters that follow another one, as a function type shows them. -/
def shownAfter : List (Parameter Ty) → List Char
  | [] => []
  | q :: qs => ',' :: ' ' :: (q.type.shown.toList ++ shownAfter qs)

def shownInputs : List (Parameter Ty) → List Char
  | [] => []
  | q :: qs => q.type.shown.toList ++ shownAfter qs

variable {a b : Ty} {r r' : List Char}

theorem toList_shown_list (a : Ty) :
    (list a).shown.toList = '[' :: (a.shown.toList ++ [']']) := by
  simp [shown]

theorem toList_intercalate_shownAll (q : Parameter Ty) (qs : List (Parameter Ty)) :
    (", ".intercalate (shownAll (q :: qs))).toList = shownInputs (q :: qs) := by
  induction qs generalizing q with
  | nil => simp [shownAll, shownInputs, shownAfter]
  | cons p qs ih =>
    rw [shownAll, shownAll, String.intercalate_cons_cons, String.toList_append,
      String.toList_append, ← shownAll, ih p]
    simp [shownInputs, shownAfter]

theorem toList_shown_function (inputs : List (Parameter Ty)) (output : Ty) :
    (function inputs output).shown.toList =
      '(' :: (shownInputs inputs ++ ')' :: ' ' :: '-' :: '>' :: ' ' :: output.shown.toList) := by
  have hinputs : (", ".intercalate (shownAll inputs)).toList = shownInputs inputs := by
    cases inputs with
    | nil => rfl
    | cons q qs => exact toList_intercalate_shownAll q qs
  rw [shown, String.toList_append, String.toList_append, String.toList_append, hinputs]
  simp

theorem exists_toList_shown (a : Ty) : ∃ cs, a.shown.toList = a.kind.initial :: cs := by
  cases a with
  | list a => exact ⟨_, toList_shown_list a⟩
  | function inputs output => exact ⟨_, toList_shown_function inputs output⟩
  | boolean | real | integer | text | unresolved => exact ⟨_, rfl⟩

theorem kind_eq_of_shown_append (h : a.shown.toList ++ r = b.shown.toList ++ r') :
    a.kind = b.kind := by
  obtain ⟨cs, ha⟩ := exists_toList_shown a
  obtain ⟨cs', hb⟩ := exists_toList_shown b
  rw [ha, hb, List.cons_append, List.cons_append] at h
  exact Kind.initial_injective (List.cons.inj h).1

/-- A type never starts with a character that no kind of types starts with. -/
theorem shown_append_ne {c : Char} (h : ∀ k : Kind, k.initial ≠ c) (a : Ty) :
    a.shown.toList ++ r ≠ c :: r' := by
  obtain ⟨cs, ha⟩ := exists_toList_shown a
  intro heq
  rw [ha] at heq
  exact h a.kind (List.cons.inj heq).1

/-- The end of the parameters of a function type starts no type. -/
theorem Kind.initial_ne_close (k : Kind) : k.initial ≠ ')' := by
  cases k <;> decide

mutual

/-- What is shown of a type tells the type, names of parameters aside, and where it ends. -/
theorem shown_append_inj : ∀ {a b : Ty} {r r' : List Char},
    a.shown.toList ++ r = b.shown.toList ++ r' → a.nameless = b.nameless ∧ r = r'
  | list a, b, r, r', h => by
    obtain ⟨b, rfl⟩ := kind_list_iff.mp (kind_eq_of_shown_append h).symm
    simp only [toList_shown_list, List.cons_append, List.append_assoc, List.cons.injEq,
      true_and] at h
    obtain ⟨hab, hr⟩ := shown_append_inj h
    exact ⟨congrArg list hab, (List.cons.inj hr).2⟩
  | function ps a, b, r, r', h => by
    cases b with
    | function qs b =>
      simp only [toList_shown_function, List.cons_append, List.append_assoc, List.cons.injEq,
        true_and] at h
      obtain ⟨hpq, hrest⟩ := shownInputs_append_inj h
      simp only [List.cons.injEq, true_and] at hrest
      obtain ⟨hab, hr⟩ := shown_append_inj hrest
      exact ⟨by rw [nameless, nameless, hpq, hab], hr⟩
    | boolean | real | integer | text | list | unresolved =>
      cases kind_eq_of_shown_append h
  | boolean, b, r, r', h | real, b, r, r', h | integer, b, r, r', h | text, b, r, r', h
  | unresolved, b, r, r', h => by
    have hkind := kind_eq_of_shown_append h
    cases b <;> cases hkind
    exact ⟨rfl, List.append_cancel_left h⟩

theorem shownInputs_append_inj : ∀ {ps qs : List (Parameter Ty)} {r r' : List Char},
    shownInputs ps ++ ')' :: r = shownInputs qs ++ ')' :: r' →
      namelessAll ps = namelessAll qs ∧ r = r'
  | [], [], _, _, h => ⟨rfl, (List.cons.inj h).2⟩
  | [], q :: qs, r, r', h => by
    rw [shownInputs, shownInputs, List.append_assoc] at h
    exact absurd h.symm (shown_append_ne Kind.initial_ne_close q.type)
  | ⟨_, type⟩ :: ps, [], r, r', h => by
    rw [shownInputs, shownInputs, List.append_assoc] at h
    exact absurd h (shown_append_ne Kind.initial_ne_close type)
  | ⟨_, type⟩ :: ps, q :: qs, r, r', h => by
    simp only [shownInputs, List.append_assoc] at h
    obtain ⟨htype, hrest⟩ := shown_append_inj h
    obtain ⟨hpq, hr⟩ := shownAfter_append_inj hrest
    exact ⟨by rw [namelessAll, namelessAll, htype, hpq], hr⟩

theorem shownAfter_append_inj : ∀ {ps qs : List (Parameter Ty)} {r r' : List Char},
    shownAfter ps ++ ')' :: r = shownAfter qs ++ ')' :: r' →
      namelessAll ps = namelessAll qs ∧ r = r'
  | [], [], _, _, h => ⟨rfl, (List.cons.inj h).2⟩
  | [], q :: qs, _, _, h => by cases h
  | ⟨_, type⟩ :: ps, [], _, _, h => by cases h
  | ⟨_, type⟩ :: ps, q :: qs, r, r', h => by
    simp only [shownAfter, List.cons_append, List.append_assoc, List.cons.injEq, true_and] at h
    obtain ⟨htype, hrest⟩ := shown_append_inj h
    obtain ⟨hpq, hr⟩ := shownAfter_append_inj hrest
    exact ⟨by rw [namelessAll, namelessAll, htype, hpq], hr⟩

end

mutual

@[simp] theorem shown_nameless : ∀ a : Ty, a.nameless.shown = a.shown
  | list a => by rw [nameless, shown, shown, shown_nameless a]
  | function ps a => by
    rw [nameless, shown, shown, shownAll_namelessAll ps, shown_nameless a]
  | boolean | real | integer | text | unresolved => rfl

theorem shownAll_namelessAll : ∀ ps : List (Parameter Ty), shownAll (namelessAll ps) = shownAll ps
  | [] => rfl
  | ⟨_, type⟩ :: ps => by
    rw [namelessAll, shownAll, shownAll, shown_nameless type, shownAll_namelessAll ps]

end

/-- Types are shown alike exactly where they are the same, names of parameters aside. -/
theorem shown_eq_iff : a.shown = b.shown ↔ a.nameless = b.nameless := by
  constructor
  · intro h
    exact (shown_append_inj (congrArg (fun text => text.toList ++ []) h)).1
  · intro h
    rw [← shown_nameless a, h, shown_nameless]

/-- Types that are shown alike agree. -/
theorem agrees_of_shown_eq (h : a.shown = b.shown) : a.agrees b = true := by
  rw [agrees_congr (shown_eq_iff.mp h), agrees_refl]

/-- No type is shown as the word that stands for all functions. -/
theorem shown_ne_function (a : Ty) : a.shown ≠ "function" := by
  have hinitial : ∀ k : Kind, k.initial ≠ 'f' := by
    intro k
    cases k <;> decide
  intro h
  exact shown_append_ne (r := []) hinitial a (congrArg (fun text => text.toList ++ []) h)

end Ty

end Piecewise
