import Mathlib.Data.List.Pairwise
import Mathlib.Data.List.Perm.Basic
import Mathlib.Order.Bounds.Basic
import Piecewise.Proofs.Ty.Nameless

/-!
# Joins as least upper bounds

A list of which the elements are not known lies below every list, and lists are ordered as their
elements. In this order, where names of parameters do not count, a join is a least upper bound, as
long as the types of functions are known in full. Then joining one type after the other succeeds
where every two of them agree, and neither their order nor the way in which they are grouped
matters.
-/

namespace Piecewise

namespace Ty

mutual

/-- Whether nothing in the type is unresolved. -/
def isComplete : Ty → Bool
  | boolean | real | integer | text => true
  | list element => element.isComplete
  | function parameters output => allComplete parameters && output.isComplete
  | unresolved => false

def allComplete : List (Parameter Ty) → Bool
  | [] => true
  | ⟨_, type⟩ :: rest => type.isComplete && allComplete rest

end

/-- Whether nothing in the function types of the type is unresolved. Outside of them, an element of
a list may be. -/
def isSettled : Ty → Bool
  | list element => element.isSettled
  | function parameters output => (function parameters output).isComplete
  | boolean | real | integer | text | unresolved => true

/-- The order of types by what is known of the elements of lists, names of parameters aside. -/
def Below : Ty → Ty → Prop
  | list a, list b => a = unresolved ∨ Below a b
  | a, b => a.nameless = b.nameless

variable {a b c type : Ty}

theorem isResolved_eq_false_iff : a.isResolved = false ↔ a = unresolved := by
  cases a <;> simp [isResolved]

theorem isComplete_function_iff {inputs : List (Parameter Ty)} {output : Ty} :
    (function inputs output).isComplete = true ↔
      allComplete inputs = true ∧ output.isComplete = true := Bool.and_eq_true_iff

theorem allComplete_cons_iff {q : Parameter Ty} {rest : List (Parameter Ty)} :
    allComplete (q :: rest) = true ↔ q.type.isComplete = true ∧ allComplete rest = true :=
  Bool.and_eq_true_iff

theorem isSettled_of_isComplete : ∀ {a : Ty}, a.isComplete = true → a.isSettled = true
  | list a, h => isSettled_of_isComplete (a := a) h
  | function _ _, h => h
  | boolean, _ | real, _ | integer, _ | text, _ => rfl

/-! ## Agreement -/

mutual

theorem agrees_refl : ∀ a : Ty, a.agrees a = true
  | list a => by simp [agrees, agrees_refl a]
  | function ps a => by simp [agrees, agreesAll_refl ps, agrees_refl a]
  | boolean | real | integer | text | unresolved => rfl

theorem agreesAll_refl : ∀ ps : List (Parameter Ty), agreesAll ps ps = true
  | [] => rfl
  | ⟨_, type⟩ :: ps => by simp [agreesAll, agrees_refl type, agreesAll_refl ps]

end

mutual

theorem agrees_comm : ∀ a b : Ty, a.agrees b = b.agrees a
  | list a, b => by
    cases b with
    | list b =>
      rw [agrees, agrees, agrees_comm a b, Bool.or_comm (!a.isResolved)]
    | boolean | real | integer | text | function | unresolved => rfl
  | function ps a, b => by
    cases b with
    | function qs b => rw [agrees, agrees, agreesAll_comm ps qs, agrees_comm a b]
    | boolean | real | integer | text | list | unresolved => rfl
  | boolean, b => by cases b <;> rfl
  | real, b => by cases b <;> rfl
  | integer, b => by cases b <;> rfl
  | text, b => by cases b <;> rfl
  | unresolved, b => by cases b <;> rfl

theorem agreesAll_comm : ∀ ps qs : List (Parameter Ty), agreesAll ps qs = agreesAll qs ps
  | [], [] | [], _ :: _ | _ :: _, [] => rfl
  | ⟨_, type⟩ :: ps, q :: qs => by
    rw [agreesAll, agreesAll, agrees_comm type q.type, agreesAll_comm ps qs]

end

/-- Types that differ in names of parameters only agree with the same types. -/
theorem agrees_congr (h : a.nameless = b.nameless) (c : Ty) : a.agrees c = b.agrees c := by
  rw [← agrees_nameless a, h, agrees_nameless]

mutual

/-- Types in which everything is known agree where they are the same, names of parameters aside. -/
theorem nameless_eq_of_agrees : ∀ {a b : Ty}, a.isComplete = true → b.isComplete = true →
    a.agrees b = true → a.nameless = b.nameless
  | list a, b, ha, hb, h => by
    obtain ⟨b, rfl⟩ := kind_list_iff.mp (kind_of_agrees h).symm
    have hresolved : ∀ {c : Ty}, c.isComplete = true → c.isResolved ≠ false := by
      intro c hc hunresolved
      rw [isResolved_eq_false_iff.mp hunresolved] at hc
      cases hc
    rcases agrees_list_iff.mp h with hleft | hright | hagrees
    · exact absurd hleft (hresolved ha)
    · exact absurd hright (hresolved hb)
    · exact congrArg list (nameless_eq_of_agrees (a := a) ha hb hagrees)
  | function ps a, b, ha, hb, h => by
    cases b with
    | function qs b =>
      simp only [agrees, isComplete, Bool.and_eq_true] at h ha hb
      rw [nameless, nameless, namelessAll_eq_of_agreesAll ha.1 hb.1 h.1,
        nameless_eq_of_agrees ha.2 hb.2 h.2]
    | boolean | real | integer | text | list | unresolved => cases h
  | boolean, b, _, _, h | real, b, _, _, h | integer, b, _, _, h | text, b, _, _, h => by
    cases b <;> first | rfl | cases h

theorem namelessAll_eq_of_agreesAll : ∀ {ps qs : List (Parameter Ty)}, allComplete ps = true →
    allComplete qs = true → agreesAll ps qs = true → namelessAll ps = namelessAll qs
  | [], [], _, _, _ => rfl
  | ⟨_, type⟩ :: ps, ⟨_, type'⟩ :: qs, hps, hqs, h => by
    simp only [agreesAll, allComplete, Bool.and_eq_true] at h hps hqs
    rw [namelessAll, namelessAll, nameless_eq_of_agrees hps.1 hqs.1 h.1,
      namelessAll_eq_of_agreesAll hps.2 hqs.2 h.2]

end

/-- Induction on how deeply a type is a list: types that are no lists are not looked into. -/
theorem listInduction {motive : Ty → Prop} (other : ∀ a : Ty, a.kind ≠ .list → motive a)
    (list : ∀ a : Ty, motive a → motive (.list a)) : ∀ a : Ty, motive a
  | .list a => list a (listInduction other list a)
  | boolean | real | integer | text | function _ _ | unresolved => other _ nofun

/-- Settled types that are not lists agree where they are the same, names of parameters aside. -/
theorem agrees_iff_of_not_list (ha : a.isSettled = true) (hb : b.isSettled = true)
    (hlist : a.kind ≠ .list) : a.agrees b = true ↔ a.nameless = b.nameless := by
  constructor
  · intro h
    cases a with
    | list α => exact absurd rfl hlist
    | function ps α =>
      cases b with
      | function qs β => exact nameless_eq_of_agrees ha hb h
      | boolean | real | integer | text | list | unresolved => cases h
    | boolean | real | integer | text | unresolved =>
      cases b <;> first | rfl | cases h
  · intro h
    rw [agrees_congr h, agrees_refl]

/-! ## The order -/

theorem below_of_not_list (hlist : a.kind ≠ .list) :
    Below a b ↔ a.nameless = b.nameless := by
  cases a with
  | list α => exact absurd rfl hlist
  | boolean | real | integer | text | function | unresolved => rfl

theorem kind_eq_of_nameless_eq (h : a.nameless = b.nameless) : a.kind = b.kind := by
  rw [← kind_nameless a, h, kind_nameless]

/-- What lies above a type is of its kind. -/
theorem kind_eq_of_below (h : Below a b) : a.kind = b.kind := by
  cases a with
  | list α =>
    cases b with
    | list β => rfl
    | boolean | real | integer | text | function | unresolved => exact kind_eq_of_nameless_eq h
  | boolean | real | integer | text | function | unresolved => exact kind_eq_of_nameless_eq h

/-- What lies above a list is a list. -/
theorem eq_list_of_below {α : Ty} (h : Below (list α) b) :
    ∃ β, b = list β ∧ (α = unresolved ∨ Below α β) := by
  obtain ⟨β, rfl⟩ := kind_list_iff.mp (kind_eq_of_below h).symm
  exact ⟨β, rfl, h⟩

theorem below_of_nameless_eq (h : a.nameless = b.nameless) : Below a b := by
  induction a using listInduction generalizing b with
  | other a hlist => exact (below_of_not_list hlist).mpr h
  | list α ih =>
    obtain ⟨β, rfl⟩ := kind_list_iff.mp (kind_eq_of_nameless_eq h).symm
    exact Or.inr (ih (list.inj h))

theorem below_refl (a : Ty) : Below a a := below_of_nameless_eq rfl

theorem eq_unresolved_of_below (h : Below a unresolved) : a = unresolved := by
  have hkind := kind_eq_of_below h
  cases a <;> first | rfl | cases hkind

theorem below_trans (hab : Below a b) (hbc : Below b c) : Below a c := by
  induction a using listInduction generalizing b c with
  | other a hlist =>
    have hlist' : b.kind ≠ .list := by rwa [← kind_eq_of_below hab]
    rw [below_of_not_list hlist] at hab ⊢
    exact hab.trans ((below_of_not_list hlist').mp hbc)
  | list α ih =>
    obtain ⟨β, rfl, hαβ⟩ := eq_list_of_below hab
    obtain ⟨γ, rfl, hβγ⟩ := eq_list_of_below hbc
    rcases hαβ with rfl | hαβ
    · exact Or.inl rfl
    · rcases hβγ with rfl | hβγ
      · exact Or.inl (eq_unresolved_of_below hαβ)
      · exact Or.inr (ih hαβ hβγ)

instance : Preorder Ty where
  le := Below
  le_refl := below_refl
  le_trans _ _ _ := below_trans

theorem list_le_list_iff : list a ≤ list b ↔ a = unresolved ∨ a ≤ b := Iff.rfl

/-- Types each of which lies below the other are the same, names of parameters aside. -/
theorem nameless_eq_of_le_of_le (hab : a ≤ b) (hba : b ≤ a) : a.nameless = b.nameless := by
  induction a using listInduction generalizing b with
  | other a hlist => exact (below_of_not_list hlist).mp hab
  | list α ih =>
    obtain ⟨β, rfl, hαβ⟩ := eq_list_of_below hab
    rcases hαβ with rfl | hαβ
    · rcases list_le_list_iff.mp hba with rfl | hβα
      · rfl
      · rw [eq_unresolved_of_below hβα]
    · rcases list_le_list_iff.mp hba with rfl | hβα
      · rw [eq_unresolved_of_below hαβ]
      · exact congrArg list (ih hαβ hβα)

/-! ## Joins of two types -/

/-- The join of the elements of two lists: an element that is not known gives way. -/
def joinElements (a b : Ty) : Option Ty :=
  if !a.isResolved then some b else if !b.isResolved then some a else a.join b

theorem join_list (a b : Ty) : (list a).join (list b) = (joinElements a b).map list := by
  unfold joinElements
  rw [join]
  split
  · rfl
  · split <;> rfl

@[simp] theorem joinElements_unresolved_left (b : Ty) :
    joinElements unresolved b = some b := rfl

@[simp] theorem joinElements_unresolved_right (a : Ty) :
    joinElements a unresolved = some a := by
  cases a <;> rfl

theorem joinElements_of_resolved (ha : a.isResolved = true) (hb : b.isResolved = true) :
    joinElements a b = a.join b := by
  simp [joinElements, ha, hb]

theorem eq_unresolved_or_isResolved (a : Ty) : a = unresolved ∨ a.isResolved = true := by
  cases a <;> simp [isResolved]

theorem isResolved_eq_of_kind_eq (h : a.kind = b.kind) : a.isResolved = b.isResolved := by
  cases a <;> cases b <;> first | rfl | cases h

/-- Of a type that is not a list a join with another is the type itself. -/
theorem join_eq_some_of_not_list (hlist : a.kind ≠ .list) (h : a.join b = some c) :
    a.agrees b = true ∧ c = a := by
  rw [join_of_not_list hlist] at h
  split at h
  · rename_i hagrees
    cases h
    exact ⟨hagrees, rfl⟩
  · cases h

/-- A join of a list with another type joins it with a list, by their elements. -/
theorem join_list_eq_some {α : Ty} (h : (list α).join b = some c) :
    ∃ β γ, b = list β ∧ c = list γ ∧ joinElements α β = some γ := by
  obtain ⟨hc, hb⟩ := kind_of_join h
  obtain ⟨β, rfl⟩ := kind_list_iff.mp (hb.symm.trans hc)
  rw [join_list] at h
  obtain ⟨γ, hγ, rfl⟩ := Option.map_eq_some_iff.mp h
  exact ⟨β, γ, rfl, rfl, hγ⟩

/-- Elements of lists are joined by taking the one that is known, or by their join. -/
theorem joinElements_cases (h : joinElements a b = some c) :
    a = unresolved ∧ c = b ∨ b = unresolved ∧ c = a ∨
      a.isResolved = true ∧ b.isResolved = true ∧ a.join b = some c := by
  rcases eq_unresolved_or_isResolved a with rfl | ha
  · exact Or.inl ⟨rfl, (Option.some.inj h).symm⟩
  · rcases eq_unresolved_or_isResolved b with rfl | hb
    · rw [joinElements_unresolved_right] at h
      exact Or.inr (Or.inl ⟨rfl, (Option.some.inj h).symm⟩)
    · rw [joinElements_of_resolved ha hb] at h
      exact Or.inr (Or.inr ⟨ha, hb, h⟩)

/-- Two types have a join exactly where they agree. -/
theorem join_isSome_iff : (a.join b).isSome = true ↔ a.agrees b = true := by
  induction a using listInduction generalizing b with
  | other a hlist =>
    rw [join_of_not_list hlist]
    split <;> simp_all
  | list α ih =>
    cases b with
    | list β =>
      rw [join_list, Option.isSome_map, agrees_list_iff]
      rcases eq_unresolved_or_isResolved α with rfl | hα
      · simp [isResolved]
      · rcases eq_unresolved_or_isResolved β with rfl | hβ
        · simp [isResolved]
        · simp [joinElements_of_resolved hα hβ, ih, hα, hβ]
    | boolean | real | integer | text | function | unresolved =>
      simp [join, agrees, sameKind, kind]

/-- A join of settled types is settled. -/
theorem isSettled_of_join (ha : a.isSettled = true) (hb : b.isSettled = true)
    (h : a.join b = some c) : c.isSettled = true := by
  induction a using listInduction generalizing b c with
  | other a hlist => rwa [(join_eq_some_of_not_list hlist h).2]
  | list α ih =>
    obtain ⟨β, γ, rfl, rfl, hγ⟩ := join_list_eq_some h
    show γ.isSettled = true
    rcases joinElements_cases hγ with ⟨_, rfl⟩ | ⟨_, rfl⟩ | ⟨_, _, hjoin⟩
    · exact hb
    · exact ha
    · exact ih (b := β) ha hb hjoin

/-- A join of settled types lies above both. -/
theorem le_of_join (ha : a.isSettled = true) (hb : b.isSettled = true)
    (h : a.join b = some c) : a ≤ c ∧ b ≤ c := by
  induction a using listInduction generalizing b c with
  | other a hlist =>
    obtain ⟨hagrees, rfl⟩ := join_eq_some_of_not_list hlist h
    have hsame := (agrees_iff_of_not_list ha hb hlist).mp hagrees
    exact ⟨le_refl _, below_of_nameless_eq hsame.symm⟩
  | list α ih =>
    obtain ⟨β, γ, rfl, rfl, hγ⟩ := join_list_eq_some h
    rcases joinElements_cases hγ with ⟨rfl, rfl⟩ | ⟨rfl, rfl⟩ | ⟨_, _, hjoin⟩
    · exact ⟨Or.inl rfl, le_refl _⟩
    · exact ⟨le_refl _, Or.inl rfl⟩
    · obtain ⟨hleft, hright⟩ := ih (b := β) ha hb hjoin
      exact ⟨Or.inr hleft, Or.inr hright⟩

/-- What lies above two types lies above their join. -/
theorem join_le {u : Ty} (h : a.join b = some c) (hau : a ≤ u) (hbu : b ≤ u) : c ≤ u := by
  induction a using listInduction generalizing b c u with
  | other a hlist => rwa [(join_eq_some_of_not_list hlist h).2]
  | list α ih =>
    obtain ⟨β, γ, rfl, rfl, hγ⟩ := join_list_eq_some h
    rcases joinElements_cases hγ with ⟨rfl, rfl⟩ | ⟨rfl, rfl⟩ | ⟨hα, hβ, hjoin⟩
    · exact hbu
    · exact hau
    · obtain ⟨μ, rfl, hα' | hαμ⟩ := eq_list_of_below hau
      · rw [hα'] at hα
        cases hα
      rcases list_le_list_iff.mp hbu with hβ' | hβμ
      · rw [hβ'] at hβ
        cases hβ
      exact Or.inr (ih hjoin hαμ hβμ)

/-- A type agrees with a join of settled types where it agrees with both of them. -/
theorem agrees_join_iff (ha : a.isSettled = true) (hb : b.isSettled = true)
    (h : a.join b = some c) (d : Ty) :
    c.agrees d = true ↔ a.agrees d = true ∧ b.agrees d = true := by
  induction a using listInduction generalizing b c d with
  | other a hlist =>
    obtain ⟨hagrees, rfl⟩ := join_eq_some_of_not_list hlist h
    have hsame := (agrees_iff_of_not_list ha hb hlist).mp hagrees
    rw [agrees_congr hsame, and_self]
  | list α ih =>
    obtain ⟨β, γ, rfl, rfl, hγ⟩ := join_list_eq_some h
    cases d with
    | list δ =>
      rw [agrees_list_iff, agrees_list_iff, agrees_list_iff]
      rcases joinElements_cases hγ with ⟨rfl, rfl⟩ | ⟨rfl, rfl⟩ | ⟨hα, hβ, hjoin⟩
      · simp [isResolved]
      · simp [isResolved]
      · have hresolved : γ.isResolved = true := by
          rw [isResolved_eq_of_kind_eq (kind_of_join hjoin).1, hα]
        rw [ih (b := β) ha hb hjoin δ]
        simp only [hα, hβ, hresolved, Bool.true_eq_false, false_or]
        tauto
    | boolean | real | integer | text | function | unresolved => simp [agrees, sameKind, kind]

theorem join_eq_none_of_not_agrees (h : ¬a.agrees b = true) : a.join b = none := by
  rwa [← join_isSome_iff, Option.not_isSome_iff_eq_none] at h

/-- Grouping does not matter to elements of lists, if it does not matter to those that are known:
joins of what is known are known, so on both sides all elements are joined as types. -/
theorem joinElements_assoc
    (h : ((a.join b).bind fun d => d.join c) = (b.join c).bind fun d => a.join d) :
    ((joinElements a b).bind fun d => joinElements d c) =
      (joinElements b c).bind fun d => joinElements a d := by
  rcases eq_unresolved_or_isResolved a with rfl | ha
  · simp
  rcases eq_unresolved_or_isResolved b with rfl | hb
  · simp
  rcases eq_unresolved_or_isResolved c with rfl | hc
  · simp
  have hleft : ∀ d, a.join b = some d → joinElements d c = d.join c := by
    intro d hd
    refine joinElements_of_resolved ?_ hc
    rw [isResolved_eq_of_kind_eq (kind_of_join hd).1, ha]
  have hright : ∀ d, b.join c = some d → joinElements a d = a.join d := by
    intro d hd
    refine joinElements_of_resolved ha ?_
    rw [isResolved_eq_of_kind_eq (kind_of_join hd).1, hb]
  rw [joinElements_of_resolved ha hb, joinElements_of_resolved hb hc, Option.bind_congr hleft,
    Option.bind_congr hright, h]

/-- A type that does not agree with the first of two types has no join with their join. -/
theorem bind_join_of_not_agrees (hb : b.isSettled = true) (hc : c.isSettled = true)
    (h : ¬a.agrees b = true) : ((b.join c).bind fun d => a.join d) = none := by
  have hnone : ∀ d, b.join c = some d → a.join d = none := by
    intro d hd
    apply join_eq_none_of_not_agrees
    rw [agrees_comm, agrees_join_iff hb hc hd, agrees_comm b]
    exact fun hagrees => h hagrees.1
  rw [Option.bind_congr hnone]
  simp

theorem join_eq_none_of_kind_ne (h : a.kind ≠ b.kind) : a.join b = none :=
  join_eq_none_of_not_agrees fun hagrees => h (kind_of_agrees hagrees)

/-- It does not matter to joins of settled types how they are grouped, also where there is none. -/
theorem join_assoc (ha : a.isSettled = true) (hb : b.isSettled = true) (hc : c.isSettled = true) :
    ((a.join b).bind fun d => d.join c) = (b.join c).bind fun d => a.join d := by
  induction a using listInduction generalizing b c with
  | other a hlist =>
    by_cases hab : a.agrees b = true
    · have hsame := (agrees_iff_of_not_list ha hb hlist).mp hab
      have hlist' : b.kind ≠ .list := by rwa [← kind_of_agrees hab]
      rw [join_of_not_list hlist, join_of_not_list hlist', if_pos hab, ← agrees_congr hsame]
      show a.join c = _
      rw [join_of_not_list hlist]
      split
      · show _ = a.join b
        rw [join_of_not_list hlist, if_pos hab]
      · rfl
    · rw [bind_join_of_not_agrees hb hc hab, join_eq_none_of_not_agrees hab]
      rfl
  | list α ih =>
    by_cases hβ : b.kind = .list
    · obtain ⟨β, rfl⟩ := kind_list_iff.mp hβ
      by_cases hγ : c.kind = .list
      · obtain ⟨γ, rfl⟩ := kind_list_iff.mp hγ
        calc ((list α).join (list β)).bind (fun d => d.join (list γ))
            = ((joinElements α β).bind fun d => joinElements d γ).map list := by
              rw [join_list]
              cases joinElements α β <;> simp [join_list]
          _ = ((joinElements β γ).bind fun d => joinElements α d).map list := by
              rw [joinElements_assoc (ih (b := β) (c := γ) ha hb hc)]
          _ = ((list β).join (list γ)).bind (fun d => (list α).join d) := by
              rw [join_list]
              cases joinElements β γ <;> simp [join_list]
      · have hkind : (list β).kind ≠ c.kind := fun h => hγ h.symm
        have hnone : ∀ d, (list α).join (list β) = some d → d.join c = none := by
          intro d hd
          apply join_eq_none_of_kind_ne
          rwa [(kind_of_join hd).2]
        rw [Option.bind_congr hnone, join_eq_none_of_kind_ne hkind]
        simp
    · have hab : ¬(list α).agrees b = true := fun h => hβ (kind_of_agrees h).symm
      rw [bind_join_of_not_agrees hb hc hab, join_eq_none_of_not_agrees hab]
      rfl

theorem joinLists_eq_some_iff :
    a.joinLists b = some c ↔ a.kind = .list ∧ b.kind = .list ∧ a.join b = some c := by
  constructor
  · intro h
    obtain ⟨⟨α, rfl⟩, ⟨β, rfl⟩, hjoin⟩ := joinLists_eq_some h
    exact ⟨rfl, rfl, hjoin⟩
  · rintro ⟨ha, hb, hjoin⟩
    obtain ⟨α, rfl⟩ := kind_list_iff.mp ha
    obtain ⟨β, rfl⟩ := kind_list_iff.mp hb
    exact hjoin

/-- Nor does it matter to joins of lists, where only lists are joined. -/
theorem joinLists_assoc (ha : a.isSettled = true) (hb : b.isSettled = true)
    (hc : c.isSettled = true) :
    ((a.joinLists b).bind fun d => d.joinLists c) =
      (b.joinLists c).bind fun d => a.joinLists d := by
  have hassoc := join_assoc ha hb hc
  ext type
  simp only [Option.bind_eq_some_iff, joinLists_eq_some_iff]
  constructor
  · rintro ⟨d, ⟨hlist, hlist', hab⟩, _, hlist'', hdc⟩
    have hright := hassoc.symm.trans (Option.bind_eq_some_iff.mpr ⟨d, hab, hdc⟩)
    obtain ⟨e, hbc, hae⟩ := Option.bind_eq_some_iff.mp hright
    exact ⟨e, ⟨hlist', hlist'', hbc⟩, hlist, (kind_of_join hbc).1.trans hlist', hae⟩
  · rintro ⟨e, ⟨hlist', hlist'', hbc⟩, hlist, _, hae⟩
    have hleft := hassoc.trans (Option.bind_eq_some_iff.mpr ⟨e, hbc, hae⟩)
    obtain ⟨d, hab, hdc⟩ := Option.bind_eq_some_iff.mp hleft
    exact ⟨d, ⟨hlist, hlist', hab⟩, (kind_of_join hab).1.trans hlist, hlist'', hdc⟩

/-! ## Joins of many types -/

variable {ts us : List Ty}

theorem joinMany_cons_cons (a b : Ty) (ts : List Ty) :
    joinMany (a :: b :: ts) = (a.join b).bind fun c => joinMany (c :: ts) := by
  rw [joinMany, List.foldlM_cons]
  rfl

/-- Types have a join exactly where every two of them agree. In the induction the first type stands
for the join of those that have been joined so far. -/
theorem joinMany_isSome_iff (hne : ts ≠ []) (hts : ∀ a ∈ ts, a.isSettled = true) :
    (joinMany ts).isSome = true ↔ ts.Pairwise fun a b => a.agrees b = true := by
  cases ts with
  | nil => exact absurd rfl hne
  | cons a ts =>
    clear hne
    induction ts generalizing a with
    | nil => simp [joinMany]
    | cons b ts ih =>
      obtain ⟨ha, hrest⟩ := List.forall_mem_cons.mp hts
      obtain ⟨hb, hts⟩ := List.forall_mem_cons.mp hrest
      rw [joinMany_cons_cons, List.pairwise_cons, List.pairwise_cons]
      cases hjoin : a.join b with
      | none =>
        have hab : ¬a.agrees b = true := by
          rw [← join_isSome_iff, hjoin]
          nofun
        simp [hab]
      | some c =>
        have hab : a.agrees b = true := by
          rw [← join_isSome_iff, hjoin]
          rfl
        have hc := isSettled_of_join ha hb hjoin
        show (joinMany (c :: ts)).isSome = true ↔ _
        rw [ih c (List.forall_mem_cons.mpr ⟨hc, hts⟩), List.pairwise_cons]
        simp only [agrees_join_iff ha hb hjoin, List.forall_mem_cons, hab, true_and, forall_and]
        tauto

theorem isSettled_of_joinMany (hts : ∀ a ∈ ts, a.isSettled = true)
    (h : joinMany ts = some type) : type.isSettled = true := by
  cases ts with
  | nil => cases h
  | cons a ts =>
    induction ts generalizing a with
    | nil =>
      cases h
      exact hts type List.mem_cons_self
    | cons b ts ih =>
      obtain ⟨ha, hrest⟩ := List.forall_mem_cons.mp hts
      obtain ⟨hb, hts⟩ := List.forall_mem_cons.mp hrest
      rw [joinMany_cons_cons] at h
      obtain ⟨c, hjoin, hc⟩ := Option.bind_eq_some_iff.mp h
      exact ih c (List.forall_mem_cons.mpr ⟨isSettled_of_join ha hb hjoin, hts⟩) hc

/-- The join of types is their least upper bound. -/
theorem isLUB_joinMany (hts : ∀ a ∈ ts, a.isSettled = true) (h : joinMany ts = some type) :
    IsLUB {a | a ∈ ts} type := by
  cases ts with
  | nil => cases h
  | cons a ts =>
    induction ts generalizing a with
    | nil =>
      cases h
      simp
    | cons b ts ih =>
      obtain ⟨ha, hrest⟩ := List.forall_mem_cons.mp hts
      obtain ⟨hb, hts⟩ := List.forall_mem_cons.mp hrest
      rw [joinMany_cons_cons] at h
      obtain ⟨c, hjoin, hc⟩ := Option.bind_eq_some_iff.mp h
      obtain ⟨hac, hbc⟩ := le_of_join ha hb hjoin
      have hsettled := isSettled_of_join ha hb hjoin
      obtain ⟨habove, hleast⟩ := ih c (List.forall_mem_cons.mpr ⟨hsettled, hts⟩) hc
      have hctype : c ≤ type := habove List.mem_cons_self
      constructor
      · rintro d (_ | ⟨_, _ | ⟨_, hd⟩⟩)
        · exact le_trans hac hctype
        · exact le_trans hbc hctype
        · exact habove (List.mem_cons_of_mem c hd)
      · intro u hu
        apply hleast
        rintro d (_ | ⟨_, hd⟩)
        · exact join_le hjoin (hu List.mem_cons_self)
            (hu (List.mem_cons_of_mem a List.mem_cons_self))
        · exact hu (List.mem_cons_of_mem a (List.mem_cons_of_mem b hd))

/-- The order of types does not matter to their join, names of parameters aside. -/
theorem joinMany_perm (hperm : ts.Perm us) (hts : ∀ a ∈ ts, a.isSettled = true) :
    (joinMany ts).map nameless = (joinMany us).map nameless := by
  by_cases hne : ts = []
  · subst hne
    rw [hperm.nil_eq]
  have hne' : us ≠ [] := fun hnil => hne (by simpa [hnil] using hperm)
  have hus : ∀ a ∈ us, a.isSettled = true := fun a ha => hts a (hperm.mem_iff.mpr ha)
  have hsome : (joinMany ts).isSome = true ↔ (joinMany us).isSome = true := by
    rw [joinMany_isSome_iff hne hts, joinMany_isSome_iff hne' hus]
    apply hperm.pairwise_iff
    intro a b h
    rwa [agrees_comm]
  cases hleft : joinMany ts with
  | none =>
    rw [hleft] at hsome
    cases hright : joinMany us with
    | none => rfl
    | some b => rw [hright] at hsome; simp at hsome
  | some a =>
    rw [hleft] at hsome
    cases hright : joinMany us with
    | none => rw [hright] at hsome; simp at hsome
    | some b =>
      have hset : {c | c ∈ ts} = {c | c ∈ us} := Set.ext fun c => hperm.mem_iff
      have ha := isLUB_joinMany hts hleft
      have hb := isLUB_joinMany hus hright
      rw [← hset] at hb
      exact congrArg some (nameless_eq_of_le_of_le (ha.2 hb.1) (hb.2 ha.1))

/-- The first of several types may be joined last. -/
theorem joinMany_cons (hne : ts ≠ []) (ha : a.isSettled = true)
    (hts : ∀ b ∈ ts, b.isSettled = true) :
    joinMany (a :: ts) = (joinMany ts).bind fun b => a.join b := by
  cases ts with
  | nil => exact absurd rfl hne
  | cons b ts =>
    clear hne
    induction ts generalizing a b with
    | nil =>
      rw [joinMany_cons_cons]
      show (a.join b).bind some = a.join b
      simp
    | cons c ts ih =>
      obtain ⟨hb, hrest⟩ := List.forall_mem_cons.mp hts
      have hstep : ∀ d, a.join b = some d →
          joinMany (d :: c :: ts) = (joinMany (c :: ts)).bind fun e => d.join e := by
        intro d hd
        exact ih (isSettled_of_join ha hb hd) c hrest
      have hassoc : ∀ e, joinMany (c :: ts) = some e →
          ((a.join b).bind fun d => d.join e) = (b.join e).bind fun d => a.join d := by
        intro e he
        exact join_assoc ha hb (isSettled_of_joinMany hrest he)
      calc joinMany (a :: b :: c :: ts)
          = (a.join b).bind fun d => (joinMany (c :: ts)).bind fun e => d.join e := by
            rw [joinMany_cons_cons, Option.bind_congr hstep]
        _ = (joinMany (c :: ts)).bind fun e => (a.join b).bind fun d => d.join e :=
            Option.bind_comm _ _
        _ = (joinMany (c :: ts)).bind fun e => (b.join e).bind fun d => a.join d :=
            Option.bind_congr hassoc
        _ = (joinMany (b :: c :: ts)).bind fun d => a.join d := by
            rw [ih hb c hrest, Option.bind_assoc]

/-- Types may be joined from the right as well as from the left. -/
theorem joinMany_append_singleton (last : Ty) (hlast : last.isSettled = true)
    (hts : ∀ a ∈ ts, a.isSettled = true) :
    joinMany (ts ++ [last]) = ts.foldrM join last := by
  induction ts with
  | nil => rfl
  | cons a ts ih =>
    obtain ⟨ha, hts⟩ := List.forall_mem_cons.mp hts
    have hrest : ∀ b ∈ ts ++ [last], b.isSettled = true := by
      intro b hb
      rcases List.mem_append.mp hb with hb | hb
      · exact hts b hb
      · rwa [List.mem_singleton.mp hb]
    rw [List.cons_append, joinMany_cons (by simp) ha hrest, ih hts, List.foldrM_cons]
    rfl

end Ty

end Piecewise
