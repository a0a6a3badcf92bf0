import Mathlib.Order.Defs.PartialOrder
import Piecewise.Source.Position

/-!
# The order of places

Places are compared by their lines, and on one line by their columns; the name of the file plays no
part. A text that is read leads from a place to a later one, and no further to the right than as
many columns as it has characters, however many newlines it holds.
-/

namespace Piecewise

namespace Position

/-- Line by line, and on a line column by column. -/
instance : Preorder Position where
  le p q := p.line < q.line ∨ p.line = q.line ∧ p.column ≤ q.column
  lt p q := p.line < q.line ∨ p.line = q.line ∧ p.column < q.column
  le_refl p := Or.inr ⟨rfl, Nat.le_refl _⟩
  le_trans p q r := by omega
  lt_iff_le_not_ge p q := by omega

theorem le_iff {p q : Position} :
    p ≤ q ↔ p.line < q.line ∨ p.line = q.line ∧ p.column ≤ q.column := Iff.rfl

theorem lt_iff {p q : Position} :
    p < q ↔ p.line < q.line ∨ p.line = q.line ∧ p.column < q.column := Iff.rfl

theorem lt_after (p : Position) (c : Char) : p < p.after c := by
  unfold after
  rw [lt_iff]
  split
  · exact Or.inl (Nat.lt_succ_self _)
  · exact Or.inr ⟨rfl, Nat.lt_succ_self _⟩

theorem le_afterAll (p : Position) (cs : List Char) : p ≤ p.afterAll cs := by
  induction cs generalizing p with
  | nil => exact le_refl p
  | cons c cs ih => exact le_trans (le_of_lt (lt_after p c)) (ih (p.after c))

theorem lt_afterAll (p : Position) {cs : List Char} (h : cs ≠ []) : p < p.afterAll cs := by
  cases cs with
  | nil => exact absurd rfl h
  | cons c cs => exact lt_of_lt_of_le (lt_after p c) (le_afterAll (p.after c) cs)

/-- A token stops no later than its text leads to: at a newline the text goes on to later lines,
while the place where the token is said to stop does not. -/
theorem right_le_afterAll (p : Position) (cs : List Char) :
    { p with column := p.column + cs.length } ≤ p.afterAll cs := by
  induction cs generalizing p with
  | nil => exact le_refl p
  | cons c cs ih =>
    by_cases hc : c = '\n'
    · have hlater : p.after c ≤ (p.after c).afterAll cs := le_afterAll (p.after c) cs
      have hline : (p.after c).line = p.line + 1 := by simp [after, hc]
      change _ ≤ (p.after c).afterAll cs
      rw [le_iff] at hlater ⊢
      change p.line < _ ∨ p.line = _ ∧ _
      omega
    · have hstep : p.after c = { p with column := p.column + 1 } := by simp [after, hc]
      have hrest := ih (p.after c)
      rw [hstep] at hrest
      have hlength : p.column + (c :: cs).length = p.column + 1 + cs.length := by
        rw [List.length_cons]
        omega
      change _ ≤ (p.after c).afterAll cs
      rw [hstep, hlength]
      exact hrest

end Position

end Piecewise
