import Piecewise.Grammar.Program
import Piecewise.Proofs.Grammar.Levels
import Piecewise.Proofs.Grammar.Stream

/-!
# Steps of reading

What one step of reading an expression does, told by the next token: a first token opens a form, and
a token behind an operand ends the expression or joins the operand to what follows. A source is read
in two steps, into tokens and from these.
-/

namespace Piecewise

open Piecewise.Parser

namespace Grammar

/-- A grammar with the expressions of the language. -/
structure HasExpressions (g : Grammar) : Prop where
  opening : g.opening? = standardOpening?
  joining : g.joining? = standardJoining?

theorem withExpressions_hasExpressions (g : Grammar) : g.withExpressions.HasExpressions :=
  ⟨rfl, rfl⟩

theorem standard_hasExpressions : standard.HasExpressions := ⟨rfl, rfl⟩

section Ends

variable {kind : TokenKind}

/-- The end of a source opens no expression. -/
theorem ne_eof_of_opening {form : Opening} (h : standardOpening? kind = some form) :
    kind ≠ .eof := by
  rintro rfl
  cases h

/-- The end of a source joins an operand to nothing. -/
theorem ne_eof_of_joining {entry : Level × Joining} (h : standardJoining? kind = some entry) :
    kind ≠ .eof := by
  rintro rfl
  cases h

end Ends

section Steps

variable {g : Grammar} {inner : Level → Parser Expr} {level tightness : Level} {n : Nat}
  {left wider : Expr} {s s₁ t : TokenStream}

/-- An expression starts with the form that its first token opens. -/
theorem exprWithin_of_opened (hg : g.HasExpressions) {form : Opening}
    (hopens : standardOpening? s.current.kind = some form)
    (hok : opened (fun l => g.exprWithin n l) n form s = .ok left t) :
    g.exprWithin (n + 1) level s = g.extended (fun l => g.exprWithin n l) level n left t := by
  rw [exprWithin, kind_bind, hg.opening, hopens]
  exact bind_of_ok hok

/-- A token that joins nothing at the level ends an expression. -/
theorem extended_of_stops (hg : g.HasExpressions) (hstops : Stops level s.current.kind) :
    g.extended inner level n left s = .ok left s := by
  cases n with
  | zero => rfl
  | succ n =>
    rw [extended, kind_bind, hg.joining]
    cases hjoins : standardJoining? s.current.kind with
    | none => rfl
    | some entry =>
      obtain ⟨tightness, form⟩ := entry
      have hloose : ¬ level < tightness := Level.not_lt_iff.mpr (hstops tightness form hjoins)
      simp only [hloose, if_false]
      rfl

/-- A token that joins more tightly than the level makes a wider expression. -/
theorem extended_of_joined (hg : g.HasExpressions) {form : Joining}
    (hjoins : standardJoining? s.current.kind = some (tightness, form)) (hlevel : level < tightness)
    (hok : joined inner n left tightness form s = .ok wider t) :
    g.extended inner level (n + 1) left s = g.extended inner level n wider t := by
  rw [extended, kind_bind, hg.joining, hjoins]
  simp only [hlevel, if_true]
  exact bind_of_ok hok

/-- An operator takes its right operand at its own level, a power at the level below. -/
theorem joined_eq_ok_iff {op : BinaryOp} {sign : Token}
    (hop : BinaryOp.ofKind? sign.kind = some op) (hadvance : advance s = .ok sign s₁) :
    joined inner n left op.level (joiningForm op) s = .ok wider t ↔
      ∃ right, inner op.rightLevel s₁ = .ok right t ∧ wider = .between op left right := by
  by_cases hpower : op = .arithmetic .power
  · subst hpower
    have hexpect : expect .caret s = .ok sign s₁ := by
      cases hadvance
      exact expectOr_of_kind (BinaryOp.kind_of_ofKind? hop).symm
    rw [joiningForm, if_pos rfl, joined, power, bind_of_ok hexpect]
    exact bind_pure_eq_ok_iff
  · rw [joiningForm, if_neg hpower, joined, binary, bind_of_ok hadvance, hop, BinaryOp.rightLevel,
      if_neg hpower]
    exact bind_pure_eq_ok_iff

end Steps

end Grammar

namespace Program

variable {p : Program} {source : Source}

theorem ofTokens_eq_ok_iff {file : String} {tokens : List Token} :
    ofTokens file tokens = .ok p ↔
      ∃ t, Grammar.standard.program (.ofTokens file tokens) = .ok p t := by
  unfold ofTokens
  cases Grammar.standard.program (.ofTokens file tokens) with
  | ok q t => simp
  | error d t => simp

theorem ofSource_eq_ok_iff :
    ofSource source = .ok p ↔ ∃ tokens t, source.tokens = .ok tokens ∧
      Grammar.standard.program (.ofTokens source.name tokens) = .ok p t := by
  unfold ofSource
  cases source.tokens with
  | error d =>
    constructor
    · nofun
    · rintro ⟨_, _, htokens, _⟩
      cases htokens
  | ok tokens =>
    change ofTokens source.name tokens = .ok p ↔ _
    rw [ofTokens_eq_ok_iff]
    constructor
    · rintro ⟨t, hrun⟩
      exact ⟨tokens, t, rfl, hrun⟩
    · rintro ⟨_, t, htokens, hrun⟩
      cases htokens
      exact ⟨t, hrun⟩

end Program

end Piecewise
