import Piecewise.Grammar.Program
import Piecewise.Proofs.Grammar.Sound
import Piecewise.Proofs.Grammar.WrittenProgram

/-!
# Programs that are read are written

Reading a program passes all tokens before the end of the source, and they are a text of the
program.
-/

namespace Piecewise

open Piecewise.Parser Piecewise.TokenStream

namespace Grammar

section Types

variable {g : Grammar} {inner : Parser TypeExpr} {bound n : Nat} {s t : TokenStream}
  {type : TypeExpr} {b : Bool} {kind : TokenKind}

/-- A token that may stand is passed if it does. -/
theorem mayStand_of_eat (h : eat kind s = .ok b t) (hkind : kind ≠ .eof) :
    ∃ text, MayStand kind text ∧ s.Passes text t := by
  obtain ⟨hcurrent, _, rfl⟩ | ⟨_, _, rfl⟩ := eat_eq_ok_iff.mp h
  · exact ⟨[s.current], Or.inr ⟨_, hcurrent, rfl⟩, passes_next (hcurrent ▸ hkind)⟩
  · exact ⟨[], Or.inl rfl, .refl _⟩

def TypeFrom (s : TokenStream) (type : TypeExpr) (t : TokenStream) : Prop :=
  ∃ text, type.Written text ∧ s.Passes text t

theorem primitiveType_typeFrom (h : primitiveType s = .ok type t) : TypeFrom s type t := by
  obtain ⟨token, s₁, h₁, h⟩ := bind_eq_ok_iff.mp h
  obtain ⟨hkind, hpasses⟩ := passes_of_expect h₁ (by decide)
  cases hname : PrimitiveType.ofName? token.value with
  | none =>
    simp only [hname] at h
    cases h
  | some name =>
    simp only [hname] at h
    cases h
    exact ⟨[token], .primitive hkind hname, hpasses⟩

theorem listType_typeFrom (hinner : ∀ s type t, inner s = .ok type t → TypeFrom s type t)
    (h : listType inner s = .ok type t) : TypeFrom s type t := by
  obtain ⟨first, s₁, h₁, h⟩ := bind_eq_ok_iff.mp h
  obtain ⟨hfirst, hpasses₁⟩ := passes_of_expect h₁ (by decide)
  obtain ⟨element, s₂, h₂, h⟩ := bind_eq_ok_iff.mp h
  obtain ⟨inside, hwritten, hpasses₂⟩ := hinner _ _ _ h₂
  obtain ⟨last, s₃, h₃, h⟩ := bind_eq_ok_iff.mp h
  obtain ⟨hlast, hpasses₃⟩ := passes_of_expect h₃ (by decide)
  cases h
  exact ⟨_, .list hfirst hlast hwritten, hpasses₁.trans (hpasses₂.trans hpasses₃)⟩

theorem functionType_typeFrom (hinner : ∀ s type t, inner s = .ok type t → TypeFrom s type t)
    (h : functionType inner bound s = .ok type t) : TypeFrom s type t := by
  obtain ⟨first, s₁, h₁, h⟩ := bind_eq_ok_iff.mp h
  obtain ⟨hfirst, hpasses₁⟩ := passes_of_expect h₁ (by decide)
  obtain ⟨inputs, s₂, h₂, h⟩ := bind_eq_ok_iff.mp h
  obtain ⟨pieces, inside, rfl, hwritten, hlisted, hpasses₂⟩ :=
    pairs_of_separated (fun s type t _ h => hinner s type t h) (Nat.le_refl _) h₂
  obtain ⟨last, s₃, h₃, h⟩ := bind_eq_ok_iff.mp h
  obtain ⟨hlast, hpasses₃⟩ := passes_of_expect h₃ (by decide)
  obtain ⟨arrow, s₄, h₄, h⟩ := bind_eq_ok_iff.mp h
  obtain ⟨harrow, hpasses₄⟩ := passes_of_expect h₄ (by decide)
  obtain ⟨output, s₅, h₅, h⟩ := bind_eq_ok_iff.mp h
  obtain ⟨behind, houtput, hpasses₅⟩ := hinner _ _ _ h₅
  cases h
  exact ⟨_, .function hfirst hlast harrow hwritten hlisted houtput,
    hpasses₁.trans (hpasses₂.trans (hpasses₃.trans (hpasses₄.trans hpasses₅)))⟩

/-- Reading a type passes a text of it. -/
theorem typeWithin_typeFrom (hg : g.typeOpening? = standardTypeOpening?)
    (h : g.typeWithin n s = .ok type t) : TypeFrom s type t := by
  induction n generalizing s type t with
  | zero => cases h
  | succ n ih =>
    rw [typeWithin, kind_bind, hg] at h
    cases hopens : standardTypeOpening? s.current.kind with
    | none =>
      rw [hopens] at h
      cases h
    | some form =>
      rw [hopens] at h
      cases form with
      | name => exact primitiveType_typeFrom h
      | list => exact listType_typeFrom (fun s type t h => ih h) h
      | function => exact functionType_typeFrom (fun s type t h => ih h) h

end Types

section Declarations

variable {g : Grammar} {bound n : Nat} {s t : TokenStream}

theorem parameter_written (hg : g.typeOpening? = standardTypeOpening?) {p : Param}
    (h : g.parameter bound s = .ok p t) : ∃ text, p.Written text ∧ s.Passes text t := by
  obtain ⟨name, s₁, h₁, h⟩ := bind_eq_ok_iff.mp h
  obtain ⟨hname, hpasses₁⟩ := passes_of_expect h₁ (by decide)
  obtain ⟨colon, s₂, h₂, h⟩ := bind_eq_ok_iff.mp h
  obtain ⟨hcolon, hpasses₂⟩ := passes_of_expect h₂ (by decide)
  obtain ⟨type, s₃, h₃, h⟩ := bind_eq_ok_iff.mp h
  obtain ⟨text, hwritten, hpasses₃⟩ := typeWithin_typeFrom hg h₃
  cases h
  exact ⟨_, .intro hname hcolon hwritten, hpasses₁.trans (hpasses₂.trans hpasses₃)⟩

theorem branch_written (hg : g.HasExpressions) {branch : Branch} (hn : s.ahead.length ≤ bound)
    (h : g.branch bound s = .ok branch t) :
    ∃ text, branch.Written text ∧ s.Passes text t := by
  have hreads := Expr.readsOnlyWritten_exprWithin hg bound
  obtain ⟨guard, s₁, h₁, h⟩ := bind_eq_ok_iff.mp h
  obtain ⟨edge, text, hguard, hpasses₁, _⟩ := hreads _ _ _ _ hn h₁
  obtain ⟨arrow, s₂, h₂, h⟩ := bind_eq_ok_iff.mp h
  obtain ⟨harrow, hpasses₂⟩ := passes_of_expect h₂ (by decide)
  have hn₂ : s₂.ahead.length ≤ bound := hpasses₂.length_le (hpasses₁.length_le hn)
  obtain ⟨action, s₃, h₃, h⟩ := bind_eq_ok_iff.mp h
  obtain ⟨edge', behind, haction, hpasses₃, _⟩ := hreads _ _ _ _ hn₂ h₃
  obtain ⟨comma, s₄, h₄, h⟩ := bind_eq_ok_iff.mp h
  obtain ⟨hcomma, hpasses₄⟩ := passes_of_expect h₄ (by decide)
  cases h
  exact ⟨_, .intro harrow hcomma hguard haction,
    hpasses₁.trans (hpasses₂.trans (hpasses₃.trans hpasses₄))⟩

theorem branches_written (hg : g.HasExpressions) {bs : List Branch} (hn : s.ahead.length ≤ bound)
    (h : g.branches bound n s = .ok bs t) :
    ∃ text, InTurn Branch.Written bs text ∧ s.Passes text t := by
  induction n generalizing s t bs with
  | zero => cases h
  | succ n ih =>
    rw [branches, kind_bind] at h
    cases hkind : s.current.kind with
    | elseWord =>
      rw [hkind] at h
      cases h
      exact ⟨[], .nil, .refl _⟩
    | closeCurly | eof =>
      rw [hkind] at h
      cases h
    | _ =>
      rw [hkind] at h
      obtain ⟨branch, s₁, h₁, h⟩ := bind_eq_ok_iff.mp h
      obtain ⟨text, hbranch, hpasses₁⟩ := branch_written hg hn h₁
      obtain ⟨rest, s₂, h₂, h⟩ := bind_eq_ok_iff.mp h
      obtain ⟨behind, hrest, hpasses₂⟩ := ih (hpasses₁.length_le hn) h₂
      cases h
      exact ⟨_, .cons hbranch hrest, hpasses₁.trans hpasses₂⟩

/-- A piecewise body with the semicolon that may stand behind it. -/
theorem piecewise_written (hg : g.HasExpressions) {body : Body} {u : TokenStream}
    {semicolon : List Token} (hn : s.ahead.length ≤ bound)
    (h : g.piecewise bound s = .ok body t) (hsemicolon : MayStand .semicolon semicolon)
    (hpasses : t.Passes semicolon u) : ∃ text, body.Written text ∧ s.Passes text u := by
  have hreads := Expr.readsOnlyWritten_exprWithin hg bound
  obtain ⟨first, s₁, h₁, h⟩ := bind_eq_ok_iff.mp h
  obtain ⟨hfirst, hpasses₁⟩ := passes_of_expect h₁ (by decide)
  have hn₁ : s₁.ahead.length ≤ bound := hpasses₁.length_le hn
  obtain ⟨branches, s₂, h₂, h⟩ := bind_eq_ok_iff.mp h
  obtain ⟨inside, hbranches, hpasses₂⟩ := branches_written hg hn₁ h₂
  obtain ⟨elseToken, s₃, h₃, h⟩ := bind_eq_ok_iff.mp h
  obtain ⟨helse, hpasses₃⟩ := passes_of_expect h₃ (by decide)
  obtain ⟨arrow, s₄, h₄, h⟩ := bind_eq_ok_iff.mp h
  obtain ⟨harrow, hpasses₄⟩ := passes_of_expect h₄ (by decide)
  have hn₄ : s₄.ahead.length ≤ bound :=
    hpasses₄.length_le (hpasses₃.length_le (hpasses₂.length_le hn₁))
  obtain ⟨otherwise, s₅, h₅, h⟩ := bind_eq_ok_iff.mp h
  obtain ⟨edge, text, hotherwise, hpasses₅, _⟩ := hreads _ _ _ _ hn₄ h₅
  obtain ⟨again, s₆, h₆, h⟩ := bind_eq_ok_iff.mp h
  obtain ⟨comma, hcomma, hpasses₆⟩ := mayStand_of_eat h₆ (by decide)
  obtain ⟨last, s₇, h₇, h⟩ := bind_eq_ok_iff.mp h
  obtain ⟨hlast, hpasses₇⟩ := passes_of_expect h₇ (by decide)
  cases h
  exact ⟨_, .piecewise hfirst hlast helse harrow hbranches hotherwise hcomma hsemicolon,
    hpasses₁.trans (hpasses₂.trans (hpasses₃.trans (hpasses₄.trans (hpasses₅.trans
      (hpasses₆.trans (hpasses₇.trans hpasses))))))⟩

theorem body_written (hg : g.HasExpressions) {body : Body} (hn : s.ahead.length ≤ bound)
    (h : g.body bound s = .ok body t) : ∃ text, body.Written text ∧ s.Passes text t := by
  have hreads := Expr.readsOnlyWritten_exprWithin hg bound
  rw [Grammar.body, kind_bind] at h
  cases hkind : s.current.kind with
  | assignment =>
    rw [hkind] at h
    have hpasses₁ : s.Passes [s.current] s.next := passes_next (by rw [hkind]; decide)
    obtain ⟨mark, s₁, h₁, h⟩ := bind_eq_ok_iff.mp h
    cases h₁
    obtain ⟨value, s₂, h₂, h⟩ := bind_eq_ok_iff.mp h
    obtain ⟨edge, text, hwritten, hpasses₂, _⟩ := hreads _ _ _ _ (hpasses₁.length_le hn) h₂
    obtain ⟨semicolon, s₃, h₃, h⟩ := bind_eq_ok_iff.mp h
    obtain ⟨hsemicolon, hpasses₃⟩ := passes_of_expect h₃ (by decide)
    cases h
    exact ⟨_, .inline hkind hsemicolon hwritten, hpasses₁.trans (hpasses₂.trans hpasses₃)⟩
  | openCurly =>
    rw [hkind] at h
    obtain ⟨piecewise, s₁, h₁, h⟩ := bind_eq_ok_iff.mp h
    obtain ⟨again, s₂, h₂, h⟩ := bind_eq_ok_iff.mp h
    obtain ⟨semicolon, hsemicolon, hpasses⟩ := mayStand_of_eat h₂ (by decide)
    cases h
    exact piecewise_written hg hn h₁ hsemicolon hpasses
  | _ =>
    rw [hkind] at h
    cases h

theorem declarationWithin_written (hg : g.HasExpressions)
    (hgt : g.typeOpening? = standardTypeOpening?) {d : Declaration} (hn : s.ahead.length ≤ bound)
    (h : g.declarationWithin bound s = .ok d t) :
    ∃ text, d.Written text ∧ s.Passes text t ∧ 0 < text.length := by
  obtain ⟨fnToken, s₁, h₁, h⟩ := bind_eq_ok_iff.mp h
  obtain ⟨hfn, hpasses₁⟩ := passes_of_expect h₁ (by decide)
  obtain ⟨name, s₂, h₂, h⟩ := bind_eq_ok_iff.mp h
  obtain ⟨hname, hpasses₂⟩ := passes_of_expectOr h₂ (by decide)
  obtain ⟨first, s₃, h₃, h⟩ := bind_eq_ok_iff.mp h
  obtain ⟨hfirst, hpasses₃⟩ := passes_of_expect h₃ (by decide)
  obtain ⟨parameters, s₄, h₄, h⟩ := bind_eq_ok_iff.mp h
  obtain ⟨pairs, inside, rfl, hwritten, hlisted, hpasses₄⟩ :=
    pairs_of_separated (fun s p t _ h => parameter_written hgt h) (Nat.le_refl _) h₄
  obtain ⟨last, s₅, h₅, h⟩ := bind_eq_ok_iff.mp h
  obtain ⟨hlast, hpasses₅⟩ := passes_of_expect h₅ (by decide)
  obtain ⟨arrow, s₆, h₆, h⟩ := bind_eq_ok_iff.mp h
  obtain ⟨harrow, hpasses₆⟩ := passes_of_expect h₆ (by decide)
  obtain ⟨returns, s₇, h₇, h⟩ := bind_eq_ok_iff.mp h
  obtain ⟨behind, hreturns, hpasses₇⟩ := typeWithin_typeFrom hgt h₇
  have hpasses := hpasses₁.trans (hpasses₂.trans (hpasses₃.trans (hpasses₄.trans
    (hpasses₅.trans (hpasses₆.trans hpasses₇)))))
  obtain ⟨body, s₈, h₈, h⟩ := bind_eq_ok_iff.mp h
  obtain ⟨text, hbody, hpasses₈⟩ := body_written hg (hpasses.length_le hn) h₈
  cases h
  refine ⟨_, .intro hfn hname hfirst hlast harrow hwritten hlisted hreturns hbody, ?_,
    Nat.succ_pos _⟩
  simpa using hpasses.trans hpasses₈

/-- Declarations are read up to the end of the source. -/
theorem declarations_written (hg : g.HasExpressions)
    (hgt : g.typeOpening? = standardTypeOpening?) {ds : List Declaration}
    (hn : s.ahead.length ≤ n) (hbound : s.ahead.length ≤ bound)
    (honly : ∀ token ∈ s.ahead, token.kind ≠ .eof)
    (h : g.declarations bound n s = .ok ds t) : InTurn Declaration.Written ds s.ahead := by
  induction n generalizing s ds with
  | zero =>
    have hend : s.ahead = [] := List.length_eq_zero_iff.mp (Nat.le_zero.mp hn)
    cases h
    rw [hend]
    exact .nil
  | succ n ih =>
    rw [declarations, kind_bind] at h
    split at h
    · rename_i heof
      cases h
      cases hahead : t.ahead with
      | nil => exact .nil
      | cons token rest =>
        rw [hahead] at honly
        rw [current_of_ahead hahead] at heof
        exact absurd heof (honly token List.mem_cons_self)
    · obtain ⟨d, s₁, h₁, h⟩ := bind_eq_ok_iff.mp h
      obtain ⟨text, hd, hpasses, hpos⟩ := declarationWithin_written hg hgt hbound h₁
      obtain ⟨rest, s₂, h₂, h⟩ := bind_eq_ok_iff.mp h
      cases h
      have hlater : ∀ token ∈ s₁.ahead, token.kind ≠ .eof := by
        intro token hmem
        refine honly token ?_
        rw [hpasses.ahead]
        exact List.mem_append_right _ hmem
      rw [hpasses.ahead]
      exact .cons hd (ih (hpasses.length_le_pred hpos hn) (hpasses.length_le hbound) hlater h₂)

end Declarations

end Grammar

namespace Program

/-- The tokens of a program that is read, the end of the source left out, are a text of the
program. -/
theorem written_of_ofTokens {file : String} {tokens : List Token} {last : Token} {p : Program}
    (hlast : last.kind = .eof) (honly : ∀ token ∈ tokens, token.kind ≠ .eof)
    (h : ofTokens file (tokens ++ [last]) = .ok p) : p.Written tokens := by
  have hahead : (TokenStream.ofTokens file (tokens ++ [last])).ahead = tokens := by
    simp [TokenStream.ofTokens, hlast]
  obtain ⟨t, hrun⟩ := ofTokens_eq_ok_iff.mp h
  generalize TokenStream.ofTokens file (tokens ++ [last]) = s at hahead hrun
  obtain ⟨start, s₁, h₁, hrun⟩ := bind_eq_ok_iff.mp hrun
  cases h₁
  obtain ⟨bound, s₂, h₂, hrun⟩ := bind_eq_ok_iff.mp hrun
  cases h₂
  obtain ⟨ds, s₃, h₃, hrun⟩ := bind_eq_ok_iff.mp hrun
  cases hrun
  rw [← hahead] at honly ⊢
  exact inTurn_mapIdx (Grammar.declarations_written Grammar.standard_hasExpressions rfl
    (Nat.le_refl _) (Nat.le_refl _) honly h₃)

section Signs

open Token (plain)

/-- The text `fn f(x: real, g: ([bool],) -> real,) -> real { (x) > 1 => (f)(-x, g), else => x, };`
with a token for every word and mark. -/
def signsText : List Token :=
  [plain .fn "fn", plain .identifier "f", plain .openParen "(", plain .identifier "x",
    plain .colon ":", plain .identifier "real", plain .comma ",", plain .identifier "g",
    plain .colon ":", plain .openParen "(", plain .openBracket "[", plain .identifier "bool",
    plain .closeBracket "]", plain .comma ",", plain .closeParen ")", plain .arrow "->",
    plain .identifier "real", plain .comma ",", plain .closeParen ")", plain .arrow "->",
    plain .identifier "real", plain .openCurly "\x7b", plain .openParen "(",
    plain .identifier "x", plain .closeParen ")", plain .greater ">", plain .number "1",
    plain .fatArrow "=>", plain .openParen "(", plain .identifier "f", plain .closeParen ")",
    plain .openParen "(", plain .dash "-", plain .identifier "x", plain .comma ",",
    plain .identifier "g", plain .closeParen ")", plain .comma ",", plain .elseWord "else",
    plain .fatArrow "=>", plain .identifier "x", plain .comma ",", plain .closeCurly "\x7d",
    plain .semicolon ";"]

def signsProgram : Program :=
  ⟨[⟨0, "f",
      [⟨"x", .primitive default .real, default⟩,
        ⟨"g", .function default [.list default (.primitive default .bool)]
          (.primitive default .real), default⟩],
      .primitive default .real,
      .piecewise default
        [⟨.binary default (.compare .greater) (.identifier default "x")
            (.number default (Decimal.nearest ['1'] 0)),
          .call default "f" [.unary default .negate (.identifier default "x"),
            .identifier default "g"], default⟩]
        (.identifier default "x"),
      default⟩], default⟩

theorem written_of_ofTokens_signsProgram :
    (plain .eof "EOF").kind = .eof ∧ (∀ token ∈ signsText, token.kind ≠ .eof) ∧
      ofTokens "" (signsText ++ [plain .eof "EOF"]) = .ok signsProgram ∧
      signsProgram.Written signsText := by
  have honly : ∀ token ∈ signsText, token.kind ≠ .eof := by decide
  have hread : ofTokens "" (signsText ++ [plain .eof "EOF"]) = .ok signsProgram := by rfl
  exact ⟨rfl, honly, hread, written_of_ofTokens rfl honly hread⟩

end Signs

end Program

end Piecewise
