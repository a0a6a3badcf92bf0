import Piecewise.Ty.Agreement

/-!
# Comparisons and joins of types

What it takes for types to be of one kind or to agree, and what a join can be: of two lists it is a
list again, and of other types the first of them.
-/

namespace Piecewise

/-- The join of one type after the other, from the left. There is none of no types at all. -/
def Ty.joinMany : List Ty → Option Ty
  | [] => none
  | type :: rest => rest.foldlM join type

namespace Ty

variable {a b type : Ty}

theorem sameKind_iff : a.sameKind b = true ↔ a.kind = b.kind := by
  simp [sameKind]

theorem kind_boolean_iff : a.kind = .boolean ↔ a = .boolean := by
  cases a <;> simp [kind]

theorem kind_real_iff : a.kind = .real ↔ a = .real := by
  cases a <;> simp [kind]

theorem kind_text_iff : a.kind = .text ↔ a = .text := by
  cases a <;> simp [kind]

theorem kind_list_iff : a.kind = .list ↔ ∃ element, a = .list element := by
  cases a <;> simp [kind]

/-- Types that agree are of one kind. -/
theorem kind_of_agrees (h : a.agrees b = true) : a.kind = b.kind := by
  unfold agrees at h
  split at h
  · rfl
  · rfl
  · exact sameKind_iff.mp h

theorem agrees_list_iff {α β : Ty} : (list α).agrees (list β) = true ↔
    α.isResolved = false ∨ β.isResolved = false ∨ α.agrees β = true := by
  rw [agrees]
  simp [or_assoc]

/-- A join is the first type, which is not a list and agrees with the second, or a list: the join
of the elements, or the elements of one side where the other has none. -/
theorem join_cases (h : a.join b = some type) :
    (a.agrees b = true ∧ type = a ∧ ∀ α, a ≠ .list α) ∨
      ∃ α β γ, a = .list α ∧ b = .list β ∧ type = .list γ ∧
        (α.isResolved = false ∧ γ = β ∨ β.isResolved = false ∧ γ = α ∨ α.join β = some γ) := by
  unfold join at h
  split at h
  · rename_i α β
    refine Or.inr ?_
    split at h
    · rename_i hα
      cases h
      exact ⟨α, β, β, rfl, rfl, rfl, Or.inl ⟨by simpa using hα, rfl⟩⟩
    · split at h
      · rename_i hβ
        cases h
        exact ⟨α, β, α, rfl, rfl, rfl, Or.inr (Or.inl ⟨by simpa using hβ, rfl⟩)⟩
      · obtain ⟨γ, hγ, rfl⟩ := Option.map_eq_some_iff.mp h
        exact ⟨α, β, γ, rfl, rfl, rfl, Or.inr (Or.inr hγ)⟩
  · rename_i hlists
    split at h
    · rename_i hagrees
      cases h
      refine Or.inl ⟨hagrees, rfl, fun α hα => ?_⟩
      have hkind : b.kind = .list := by rw [← kind_of_agrees hagrees, hα]; rfl
      obtain ⟨β, hβ⟩ := kind_list_iff.mp hkind
      exact hlists α β hα hβ
    · cases h

/-- Types that are not lists have a join where they agree: the first of them. -/
theorem join_of_not_list (h : a.kind ≠ .list) (b : Ty) :
    a.join b = if a.agrees b then some a else none := by
  cases a with
  | list α => exact absurd rfl h
  | boolean | real | integer | text | function | unresolved => rfl

/-- A join is of the kind of both types. -/
theorem kind_of_join (h : a.join b = some type) : type.kind = a.kind ∧ type.kind = b.kind := by
  rcases join_cases h with ⟨hagrees, rfl, _⟩ | ⟨α, β, γ, rfl, rfl, rfl, _⟩
  · exact ⟨rfl, kind_of_agrees hagrees⟩
  · exact ⟨rfl, rfl⟩

/-- Lists are joined only with lists. -/
theorem joinLists_eq_some (h : a.joinLists b = some type) :
    (∃ α, a = .list α) ∧ (∃ β, b = .list β) ∧ a.join b = some type := by
  unfold joinLists at h
  split at h
  · rename_i hlists
    cases a <;> cases b <;> simp_all [element?]
  · cases h

end Ty

end Piecewise
