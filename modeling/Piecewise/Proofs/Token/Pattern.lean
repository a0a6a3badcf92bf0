import Piecewise.Token.Lexeme

/-!
# Patterns of lexemes

The texts that make up a class of lexemes, as a regular language: a pattern for every class, built
from single characters, sequence, choice and repetition. A pattern says which texts it matches and
nothing about how a match is found.
-/

namespace Piecewise

inductive Pattern
  | empty
  | one (p : Char → Bool)
  | seq (first second : Pattern)
  | either (first second : Pattern)
  | many (item : Pattern)

namespace Pattern

inductive Matches : Pattern → List Char → Prop
  | empty : Matches .empty []
  | one {p : Char → Bool} {c : Char} (h : p c = true) : Matches (.one p) [c]
  | seq {first second : Pattern} {u v : List Char} (h : Matches first u) (k : Matches second v) :
      Matches (.seq first second) (u ++ v)
  | left {first second : Pattern} {u : List Char} (h : Matches first u) :
      Matches (.either first second) u
  | right {first second : Pattern} {u : List Char} (h : Matches second u) :
      Matches (.either first second) u
  | none {item : Pattern} : Matches (.many item) []
  | more {item : Pattern} {u v : List Char} (h : Matches item u) (k : Matches (.many item) v) :
      Matches (.many item) (u ++ v)

/-- One character or more of a class. -/
def some (p : Char → Bool) : Pattern := .seq (.one p) (.many (.one p))

def literal : List Char → Pattern
  | [] => .empty
  | c :: cs => .seq (.one (· = c)) (literal cs)

section Matches

variable {p : Char → Bool} {first second item : Pattern} {u : List Char}

theorem matches_one_iff : Matches (.one p) u ↔ ∃ c, p c = true ∧ u = [c] := by
  constructor
  · intro h
    cases h with
    | one h => exact ⟨_, h, rfl⟩
  · rintro ⟨c, h, rfl⟩
    exact .one h

theorem matches_seq_iff :
    Matches (.seq first second) u ↔ ∃ v w, Matches first v ∧ Matches second w ∧ u = v ++ w := by
  constructor
  · intro h
    cases h with
    | seq h k => exact ⟨_, _, h, k, rfl⟩
  · rintro ⟨v, w, h, k, rfl⟩
    exact .seq h k

theorem matches_either_iff :
    Matches (.either first second) u ↔ Matches first u ∨ Matches second u := by
  constructor
  · intro h
    cases h with
    | left h => exact Or.inl h
    | right h => exact Or.inr h
  · rintro (h | h)
    · exact .left h
    · exact .right h

theorem matches_empty_iff : Matches .empty u ↔ u = [] := by
  constructor
  · intro h
    cases h
    rfl
  · rintro rfl
    exact .empty

/-- A repeated pattern matches nothing, or once and then repeatedly. -/
theorem matches_many_iff : Matches (.many item) u ↔
    u = [] ∨ ∃ v w, Matches item v ∧ Matches (.many item) w ∧ u = v ++ w := by
  constructor
  · intro h
    cases h with
    | none => exact Or.inl rfl
    | more h k => exact Or.inr ⟨_, _, h, k, rfl⟩
  · rintro (rfl | ⟨v, w, h, k, rfl⟩)
    · exact .none
    · exact .more h k

theorem matches_seq_one_iff {c : Char} :
    Matches (.seq (.one p) second) (c :: u) ↔ p c = true ∧ Matches second u := by
  rw [matches_seq_iff]
  constructor
  · rintro ⟨v, w, hv, hw, heq⟩
    obtain ⟨d, hd, rfl⟩ := matches_one_iff.mp hv
    cases heq
    exact ⟨hd, hw⟩
  · rintro ⟨hc, hu⟩
    exact ⟨[c], u, .one hc, hu, rfl⟩

theorem not_matches_seq_one_nil : ¬ Matches (.seq (.one p) second) [] := by
  rw [matches_seq_iff]
  rintro ⟨v, w, hv, _, heq⟩
  obtain ⟨d, _, rfl⟩ := matches_one_iff.mp hv
  cases heq

theorem matches_many_one_iff : Matches (.many (.one p)) u ↔ ∀ c ∈ u, p c = true := by
  induction u with
  | nil => exact iff_of_true .none (by simp)
  | cons c u ih =>
    rw [matches_many_iff, List.forall_mem_cons, ← ih]
    constructor
    · rintro (heq | ⟨v, w, hv, hw, heq⟩)
      · cases heq
      · obtain ⟨d, hd, rfl⟩ := matches_one_iff.mp hv
        cases heq
        exact ⟨hd, hw⟩
    · rintro ⟨hc, hu⟩
      exact Or.inr ⟨[c], u, .one hc, hu, rfl⟩

/-- One character or more: a text that is not empty, all of the class. -/
theorem matches_some_iff : Matches (some p) u ↔ u ≠ [] ∧ ∀ c ∈ u, p c = true := by
  unfold some
  cases u with
  | nil => simp [not_matches_seq_one_nil]
  | cons c u =>
    rw [matches_seq_one_iff, matches_many_one_iff, List.forall_mem_cons]
    simp

theorem matches_literal_iff {s : List Char} : Matches (literal s) u ↔ u = s := by
  induction s generalizing u with
  | nil => exact matches_empty_iff
  | cons d s ih =>
    cases u with
    | nil => simp [literal, not_matches_seq_one_nil]
    | cons c u => simp [literal, matches_seq_one_iff, ih]

end Matches

end Pattern

namespace Lexeme

/-- What may stand between the quotes of a text: a backslash with the character after it, which is
no newline, or a character that is neither a quote nor a backslash. -/
def textItem : Pattern :=
  .either (.seq (.one (· = '\\')) (.one (· ≠ '\n'))) (.one fun c => c ≠ '"' && c ≠ '\\')

def pattern : Lexeme → Pattern
  | word => .seq (.one startsWord) (.many (.one continuesWord))
  | number =>
    .seq (.some Char.isDigit) (.either (.seq (.one (· = '.')) (.some Char.isDigit)) .empty)
  | blank => .some Text.isBlank
  | text => .seq (.one (· = '"')) (.seq (.many textItem) (.one (· = '"')))
  | comment => .seq (.one (· = '/')) (.seq (.one (· = '/')) (.many (.one (· ≠ '\n'))))
  | mark _ spelling => .literal spelling.toList

end Lexeme

end Piecewise
