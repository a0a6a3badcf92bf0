import Piecewise.Expr.Operator
import Piecewise.Grammar.Table

/-!
# Levels of operators

How tightly each operator binds, and which operators may stand without parentheses inside an operand
of another. An operator on the left of its operand may stand there if it would not take what follows
the operand; one on the right, if it would be taken into the operand. The table that parsing goes by
has just these levels.
-/

namespace Piecewise

namespace Level

theorem lt_iff_rank {a b : Level} : a < b ↔ a.rank < b.rank := Iff.rfl

theorem le_iff_rank {a b : Level} : a ≤ b ↔ a.rank ≤ b.rank := Iff.rfl

theorem not_lt_iff {a b : Level} : ¬ a < b ↔ b ≤ a := Nat.not_lt

theorem le_refl (a : Level) : a ≤ a := Nat.le_refl _

theorem le_trans {a b c : Level} (h : a ≤ b) (k : b ≤ c) : a ≤ c := Nat.le_trans h k

theorem lt_of_lt_of_le {a b c : Level} (h : a < b) (k : b ≤ c) : a < c := Nat.lt_of_lt_of_le h k

theorem le_of_lt {a b : Level} (h : a < b) : a ≤ b := Nat.le_of_lt h

theorem default_le (a : Level) : .default ≤ a := Nat.zero_le _

end Level

def UnaryOp.kind : UnaryOp → TokenKind
  | .negate => .dash
  | .not => .notWord

namespace BinaryOp

/-- How tightly an operator between two operands binds. -/
def level : BinaryOp → Level
  | or => .or
  | and => .and
  | equals | compare _ => .relational
  | concat => .concat
  | arithmetic .add | arithmetic .subtract => .additive
  | arithmetic .multiply | arithmetic .divide | arithmetic .modulo => .multiplicative
  | arithmetic .power => .power

/-- Whether an operator may stand without parentheses in the operand on the left of another. -/
def LeftFits (op inner : BinaryOp) : Prop :=
  if op = .arithmetic .power then op.level < inner.level else op.level ≤ inner.level

/-- Whether an operator may stand without parentheses in the operand on the right of another. -/
def RightFits (op inner : BinaryOp) : Prop :=
  if op = .arithmetic .power then op.level ≤ inner.level else op.level < inner.level

def rightLevel (op : BinaryOp) : Level :=
  if op = .arithmetic .power then .multiplicative else op.level

section Levels

variable (op inner : BinaryOp)

theorem level_lt_power (h : op ≠ .arithmetic .power) : op.level < .power := by
  rcases op with _ | _ | _ | c | _ | a
  · decide
  · decide
  · decide
  · cases c <;> decide
  · decide
  · cases a with
    | power => exact absurd rfl h
    | add | subtract | multiply | divide | modulo => decide

theorem default_lt_level : .default < op.level := by
  rcases op with _ | _ | _ | c | _ | a
  · decide
  · decide
  · decide
  · cases c <;> decide
  · decide
  · cases a <;> decide

theorem level_le_power : op.level ≤ .power := by
  by_cases h : op = .arithmetic .power
  · subst h
    decide
  · exact Level.le_of_lt (level_lt_power op h)

theorem rightLevel_lt_unary : op.rightLevel < .unary := by
  unfold rightLevel
  split
  · decide
  · have hpower := level_le_power op
    rw [Level.le_iff_rank] at hpower
    change op.level.rank ≤ 7 at hpower
    change op.level.rank < 8
    omega

/-- An operator fits on the left of another if it leaves what follows to the other. -/
theorem leftFits_iff : op.LeftFits inner ↔ op.level ≤ inner.rightLevel := by
  unfold LeftFits rightLevel
  by_cases hop : op = .arithmetic .power
  · subst hop
    by_cases hinner : inner = .arithmetic .power
    · subst hinner
      decide
    · have hlevel := level_lt_power inner hinner
      rw [if_pos rfl, if_neg hinner]
      rw [Level.lt_iff_rank] at hlevel
      change inner.level.rank < 7 at hlevel
      change 7 < inner.level.rank ↔ 7 ≤ inner.level.rank
      omega
  · rw [if_neg hop]
    by_cases hinner : inner = .arithmetic .power
    · subst hinner
      have hlevel := level_lt_power op hop
      rw [Level.lt_iff_rank] at hlevel
      change op.level.rank < 7 at hlevel
      change op.level.rank ≤ 7 ↔ op.level.rank ≤ 6
      omega
    · rw [if_neg hinner]

theorem level_le_of_leftFits (h : op.LeftFits inner) : op.level ≤ inner.level := by
  unfold LeftFits at h
  split at h
  · exact Level.le_of_lt h
  · exact h

/-- An operator fits on the right of another if the level of the operand there admits it. -/
theorem rightFits_iff : op.RightFits inner ↔ op.rightLevel < inner.level := by
  unfold RightFits rightLevel
  by_cases hop : op = .arithmetic .power
  · subst hop
    exact Nat.succ_le_iff
  · rw [if_neg hop, if_neg hop]

theorem rightLevel_le_of_rightFits (h : op.RightFits inner) : op.rightLevel ≤ inner.rightLevel := by
  have hlt := (rightFits_iff op inner).mp h
  unfold rightLevel at hlt ⊢
  by_cases hinner : inner = .arithmetic .power
  · subst hinner
    exact Nat.lt_succ_iff.mp hlt
  · rw [if_neg hinner]
    exact Level.le_of_lt hlt

theorem ofKind?_kind : ofKind? op.kind = some op := by
  rcases op with _ | _ | _ | c | _ | a
  · rfl
  · rfl
  · rfl
  · cases c <;> rfl
  · rfl
  · cases a <;> rfl

theorem kind_of_ofKind? {kind : TokenKind} {op : BinaryOp} (h : ofKind? kind = some op) :
    op.kind = kind := by
  cases kind <;> cases h <;> rfl

end Levels

end BinaryOp

namespace Grammar

open BinaryOp

def joiningForm (op : BinaryOp) : Joining :=
  if op = .arithmetic .power then .power else .binary

theorem standardJoining?_kind (op : BinaryOp) :
    standardJoining? op.kind = some (op.level, joiningForm op) := by
  rcases op with _ | _ | _ | c | _ | a
  · rfl
  · rfl
  · rfl
  · cases c <;> rfl
  · rfl
  · cases a <;> rfl

/-- What joins an expression to what follows is an operator or the parenthesis of a call. -/
theorem standardJoining?_cases {kind : TokenKind} {tightness : Level} {form : Joining}
    (h : standardJoining? kind = some (tightness, form)) :
    (kind = .openParen ∧ tightness = .call ∧ form = .call) ∨
      ∃ op, ofKind? kind = some op ∧ tightness = op.level ∧ form = joiningForm op := by
  cases kind with
  | openParen => cases h; exact Or.inl ⟨rfl, rfl, rfl⟩
  | orWord | andWord | equals | less | lessEquals | greater | greaterEquals | plusPlus | plus | dash
  | star | slash | percent | caret => cases h; exact Or.inr ⟨_, rfl, rfl, rfl⟩
  | _ => cases h

theorem standardJoining?_eq_none {kind : TokenKind} (hop : ofKind? kind = none)
    (hparen : kind ≠ .openParen) : standardJoining? kind = none := by
  cases hkind : standardJoining? kind with
  | none => rfl
  | some entry =>
    obtain ⟨rfl, _⟩ | ⟨op, hsome, _⟩ := standardJoining?_cases hkind
    · exact absurd rfl hparen
    · rw [hop] at hsome
      cases hsome

/-- A token ends an expression that is read at a level: it joins nothing more tightly. -/
def Stops (level : Level) (kind : TokenKind) : Prop :=
  ∀ tightness form, standardJoining? kind = some (tightness, form) → tightness ≤ level

section Stops

variable {level : Level} {kind : TokenKind}

theorem Stops.weaken {tighter : Level} (h : Stops level kind) (hle : level ≤ tighter) :
    Stops tighter kind := by
  intro tightness form hjoins
  exact Level.le_trans (h tightness form hjoins) hle

theorem stops_of_none (h : standardJoining? kind = none) : Stops level kind := by
  intro tightness form hjoins
  rw [h] at hjoins
  cases hjoins

/-- Only a token that joins nothing ends an expression that is read at the loosest level. -/
theorem stops_default_iff : Stops .default kind ↔ standardJoining? kind = none := by
  constructor
  · intro h
    cases hkind : standardJoining? kind with
    | none => rfl
    | some entry =>
      obtain ⟨tightness, form⟩ := entry
      have hle := h tightness form hkind
      obtain ⟨_, rfl, _⟩ | ⟨op, _, rfl, _⟩ := standardJoining?_cases hkind
      · exact absurd hle (by decide)
      · exact absurd (default_lt_level op) (Level.not_lt_iff.mpr hle)
  · exact stops_of_none

theorem stops_kind_iff {op : BinaryOp} : Stops level op.kind ↔ op.level ≤ level := by
  constructor
  · intro h
    exact h _ _ (standardJoining?_kind op)
  · intro h tightness form hjoins
    rw [standardJoining?_kind] at hjoins
    cases hjoins
    exact h

end Stops

end Grammar

end Piecewise
