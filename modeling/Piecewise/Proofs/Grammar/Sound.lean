import Piecewise.Proofs.Grammar.Steps
import Piecewise.Proofs.Grammar.Written

/-!
# What is read is written

Whatever reading an expression passes is a text of the expression: no token is dropped, doubled or
moved. The loop that joins expressions keeps two facts about the one on the left: its text has been
passed, and the next token is not one that its last operand would have taken.
-/

namespace Piecewise

open Piecewise.Parser Piecewise.TokenStream

namespace Expr

open Grammar

/-- What reading an expression at a level has passed: a text of the expression that fits the level,
up to a token that joins nothing there. -/
def ReadFrom (s : TokenStream) (level : Level) (e : Expr) (t : TokenStream) : Prop :=
  ∃ edge text, Written edge e text ∧ s.Passes text t ∧ Fits level edge e ∧
    Follows edge e t.current.kind ∧ Stops level t.current.kind

/-- Reading an expression passes a text of it, whenever no more tokens are ahead than a bound. -/
def ReadsOnlyWritten (inner : Level → Parser Expr) (bound : Nat) : Prop :=
  ∀ level s e t, s.ahead.length ≤ bound → inner level s = .ok e t → ReadFrom s level e t

section Forms

variable {inner : Level → Parser Expr} {bound : Nat} {s t : TokenStream} {e : Expr}

/-- What a form that its first token opens has passed. -/
def OpenedFrom (s : TokenStream) (e : Expr) (t : TokenStream) : Prop :=
  ∃ edge text, Written edge e text ∧ s.Passes text t ∧ (edge = .grouped ∨ e.operator? = none) ∧
    Follows edge e t.current.kind

/-- A token that is an expression by itself is passed. -/
theorem openedFrom_of_token (hwritten : Written .closed e [s.current])
    (hopens : standardOpening? s.current.kind = some .primary) (hop : e.operator? = none)
    (hlast : lastLevel? .closed e = none) : OpenedFrom s e s.next := by
  have hsource : s.current.kind ≠ .eof := ne_eof_of_opening hopens
  exact ⟨.closed, _, hwritten, passes_next hsource, Or.inr hop,
    follows_of_lastLevel?_eq_none hlast⟩

theorem primary_openedFrom (hopens : standardOpening? s.current.kind = some .primary)
    (h : primary s = .ok e t) : OpenedFrom s e t := by
  have hadvance : advance s = .ok s.current s.next := rfl
  rw [primary, bind_of_ok hadvance] at h
  cases hkind : s.current.kind with
  | number =>
    rw [hkind] at h
    cases hread : Decimal.read? s.current.value with
    | none => simp only [hread] at h; cases h
    | some value =>
      simp only [hread] at h
      cases h
      exact openedFrom_of_token (.number hkind hread) hopens rfl rfl
  | text =>
    rw [hkind] at h
    cases h
    exact openedFrom_of_token (.text hkind) hopens rfl rfl
  | trueWord =>
    rw [hkind] at h
    cases h
    exact openedFrom_of_token (.boolean hkind) hopens rfl rfl
  | falseWord =>
    rw [hkind] at h
    cases h
    exact openedFrom_of_token (.boolean hkind) hopens rfl rfl
  | identifier =>
    rw [hkind] at h
    cases h
    exact openedFrom_of_token (.identifier hkind) hopens rfl rfl
  | _ => rw [hkind] at hopens; cases hopens

theorem group_openedFrom (hinner : ReadsOnlyWritten inner bound) (hn : s.ahead.length ≤ bound + 1)
    (h : group inner s = .ok e t) : OpenedFrom s e t := by
  obtain ⟨first, s₁, h₁, h⟩ := bind_eq_ok_iff.mp h
  obtain ⟨hfirst, hpasses₁⟩ := passes_of_expect h₁ (by decide)
  obtain ⟨e', s₂, h₂, h⟩ := bind_eq_ok_iff.mp h
  obtain ⟨edge, text, hwritten, hpasses₂, _⟩ :=
    hinner .default s₁ e' s₂ (hpasses₁.length_le_pred Nat.one_pos hn) h₂
  obtain ⟨last, s₃, h₃, h⟩ := bind_eq_ok_iff.mp h
  obtain ⟨hlast, hpasses₃⟩ := passes_of_expect h₃ (by decide)
  cases h
  exact ⟨.grouped, _, .group hfirst hlast hwritten, hpasses₁.trans (hpasses₂.trans hpasses₃),
    Or.inl rfl, follows_of_lastLevel?_eq_none rfl⟩

/-- Expressions with commas between them. -/
theorem listed_of_expressions (hinner : ReadsOnlyWritten inner bound) {close : TokenKind} {m : Nat}
    {es : List Expr} (hn : s.ahead.length ≤ bound)
    (h : separated (inner .default) close m s = .ok es t) :
    ∃ pieces inside, pieces.map Piece.expr = es ∧
      (∀ p ∈ pieces, Written p.edge p.expr p.text) ∧ Listed Piece.text pieces inside ∧
      s.Passes inside t := by
  refine listed_of_separated (fun s e t hn h => ?_) hn h
  obtain ⟨edge, text, hwritten, hpasses, _⟩ := hinner .default s e t hn h
  exact ⟨⟨edge, e, text⟩, rfl, hwritten, hpasses⟩

theorem list_openedFrom (hinner : ReadsOnlyWritten inner bound) {m : Nat}
    (hn : s.ahead.length ≤ bound + 1) (h : Grammar.list inner m s = .ok e t) :
    OpenedFrom s e t := by
  obtain ⟨first, s₁, h₁, h⟩ := bind_eq_ok_iff.mp h
  obtain ⟨hfirst, hpasses₁⟩ := passes_of_expect h₁ (by decide)
  obtain ⟨es, s₂, h₂, h⟩ := bind_eq_ok_iff.mp h
  obtain ⟨pieces, inside, rfl, hwritten, hlisted, hpasses₂⟩ :=
    listed_of_expressions hinner (hpasses₁.length_le_pred Nat.one_pos hn) h₂
  obtain ⟨last, s₃, h₃, h⟩ := bind_eq_ok_iff.mp h
  obtain ⟨hlast, hpasses₃⟩ := passes_of_expect h₃ (by decide)
  cases h
  exact ⟨.closed, _, .list hfirst hlast hwritten hlisted,
    hpasses₁.trans (hpasses₂.trans hpasses₃), Or.inr rfl, follows_of_lastLevel?_eq_none rfl⟩

theorem signed_openedFrom (hinner : ReadsOnlyWritten inner bound)
    (hopens : standardOpening? s.current.kind = some .signed)
    (hn : s.ahead.length ≤ bound + 1) (h : signed inner s = .ok e t) : OpenedFrom s e t := by
  have hsign : s.current.kind = (if s.current.kind = .notWord then UnaryOp.not else .negate).kind ∧
      s.current.kind ≠ .eof := by
    cases hkind : s.current.kind with
    | dash => exact ⟨rfl, by decide⟩
    | notWord => exact ⟨rfl, by decide⟩
    | _ => rw [hkind] at hopens; cases hopens
  have hadvance : advance s = .ok s.current s.next := rfl
  have hpasses₁ := passes_next hsign.2
  rw [signed, bind_of_ok hadvance] at h
  obtain ⟨operand, s₂, h₂, h⟩ := bind_eq_ok_iff.mp h
  obtain ⟨edge, text, hwritten, hpasses₂, hfits, hfollows, hstops⟩ :=
    hinner .unary _ operand s₂ (hpasses₁.length_le_pred Nat.one_pos hn) h₂
  cases h
  rw [fits_unary_iff] at hfits
  exact ⟨edge.outside, _, .unary hsign.1 hwritten hfits, hpasses₁.trans hpasses₂, Or.inr rfl,
    (follows_unary_iff hfits).mpr ⟨hfollows, hstops⟩⟩

theorem conditional_openedFrom (hinner : ReadsOnlyWritten inner bound)
    (hn : s.ahead.length ≤ bound + 1) (h : Grammar.conditional inner s = .ok e t) :
    OpenedFrom s e t := by
  obtain ⟨ifToken, s₁, h₁, h⟩ := bind_eq_ok_iff.mp h
  obtain ⟨hif, hpasses₁⟩ := passes_of_expect h₁ (by decide)
  have hn₁ : s₁.ahead.length ≤ bound := hpasses₁.length_le_pred Nat.one_pos hn
  obtain ⟨condition, s₂, h₂, h⟩ := bind_eq_ok_iff.mp h
  obtain ⟨edge, text, hcondition, hpasses₂, _⟩ := hinner .default s₁ condition s₂ hn₁ h₂
  obtain ⟨thenToken, s₃, h₃, h⟩ := bind_eq_ok_iff.mp h
  obtain ⟨hthen, hpasses₃⟩ := passes_of_expect h₃ (by decide)
  have hn₃ : s₃.ahead.length ≤ bound := hpasses₃.length_le (hpasses₂.length_le hn₁)
  obtain ⟨whenTrue, s₄, h₄, h⟩ := bind_eq_ok_iff.mp h
  obtain ⟨edgeTrue, textTrue, htrue, hpasses₄, _⟩ := hinner .default s₃ whenTrue s₄ hn₃ h₄
  obtain ⟨elseToken, s₅, h₅, h⟩ := bind_eq_ok_iff.mp h
  obtain ⟨helse, hpasses₅⟩ := passes_of_expect h₅ (by decide)
  have hn₅ : s₅.ahead.length ≤ bound := hpasses₅.length_le (hpasses₄.length_le hn₃)
  obtain ⟨whenFalse, s₆, h₆, h⟩ := bind_eq_ok_iff.mp h
  obtain ⟨edgeFalse, textFalse, hfalse, hpasses₆, _, _, hstops⟩ :=
    hinner .default s₅ whenFalse s₆ hn₅ h₆
  cases h
  exact ⟨.dangling, _, .conditional hif hthen helse hcondition htrue hfalse,
    hpasses₁.trans (hpasses₂.trans (hpasses₃.trans (hpasses₄.trans (hpasses₅.trans hpasses₆)))),
    Or.inr rfl, follows_dangling_iff.mpr (stops_default_iff.mp hstops)⟩

/-- The forms that a first token opens. -/
theorem opened_openedFrom (hinner : ReadsOnlyWritten inner bound) {form : Opening} {m : Nat}
    (hopens : standardOpening? s.current.kind = some form) (hn : s.ahead.length ≤ bound + 1)
    (h : opened inner m form s = .ok e t) : OpenedFrom s e t := by
  cases form with
  | primary => exact primary_openedFrom hopens h
  | signed => exact signed_openedFrom hinner hopens hn h
  | group => exact group_openedFrom hinner hn h
  | list => exact list_openedFrom hinner hn h
  | conditional => exact conditional_openedFrom hinner hn h

end Forms

section Joins

variable {g : Grammar} {inner : Level → Parser Expr} {bound m : Nat} {s t : TokenStream}
  {edge : Edge} {e left : Expr} {before : List Token}

/-- What joins an expression to what follows passes the rest of a text of the wider expression,
whose operator is the one that joins. -/
theorem written_of_joined (hinner : ReadsOnlyWritten inner bound) {tightness : Level}
    {form : Joining} (hleft : Written edge left before)
    (hfollows : Follows edge left s.current.kind)
    (hjoins : standardJoining? s.current.kind = some (tightness, form))
    (hn : s.ahead.length ≤ bound) (h : joined inner m left tightness form s = .ok e t) :
    ∃ edge' behind, Written edge' e (before ++ behind) ∧ s.Passes behind t ∧ 0 < behind.length ∧
      (∀ op ∈ e.operator?, tightness = op.level) ∧ Follows edge' e t.current.kind := by
  obtain ⟨_, rfl, rfl⟩ | ⟨op, hop, rfl, rfl⟩ := standardJoining?_cases hjoins
  · cases left with
    | identifier span callee =>
      obtain ⟨first, s₁, h₁, h⟩ := bind_eq_ok_iff.mp h
      obtain ⟨hfirst, hpasses₁⟩ := passes_of_expect h₁ (by decide)
      obtain ⟨es, s₂, h₂, h⟩ := bind_eq_ok_iff.mp h
      obtain ⟨pieces, inside, rfl, hwritten, hlisted, hpasses₂⟩ :=
        listed_of_expressions hinner (hpasses₁.length_le hn) h₂
      obtain ⟨last, s₃, h₃, h⟩ := bind_eq_ok_iff.mp h
      obtain ⟨hlast, hpasses₃⟩ := passes_of_expect h₃ (by decide)
      cases h
      exact ⟨.closed, _, .call hleft hfirst hlast hwritten hlisted,
        hpasses₁.trans (hpasses₂.trans hpasses₃), Nat.succ_pos _, by simp [operator?],
        follows_of_lastLevel?_eq_none rfl⟩
    | _ => cases h
  · have hadvance : advance s = .ok s.current s.next := rfl
    obtain ⟨right, h₂, rfl⟩ := (joined_eq_ok_iff hop hadvance).mp h
    have hkind : s.current.kind = op.kind := (BinaryOp.kind_of_ofKind? hop).symm
    have hsource : s.current.kind ≠ .eof := by
      intro heof
      rw [heof] at hop
      cases hop
    have hpasses₁ := passes_next hsource
    obtain ⟨edge', behind, hright, hpasses₂, hfits, hfollowsRight, hstops⟩ :=
      hinner _ _ right t (hpasses₁.length_le hn) h₂
    rw [fits_rightLevel_iff] at hfits
    rw [hkind, follows_operator_iff] at hfollows
    refine ⟨edge'.outside, _, .binary hkind hleft hright hfollows.1 hfollows.2 hfits,
      hpasses₁.trans hpasses₂, Nat.succ_pos _, ?_, ?_⟩
    · rintro inner hinner
      cases hinner
      rfl
    · exact (follows_binary_iff hfits).mpr ⟨hfollowsRight, hstops⟩

/-- The loop passes the rest of a text of the expression that it ends with. -/
theorem readFrom_of_extended (hg : g.HasExpressions) (hinner : ReadsOnlyWritten inner bound)
    {level : Level} {s₀ : TokenStream} (hleft : Written edge left before)
    (hpasses : s₀.Passes before s) (hfits : Fits level edge left)
    (hfollows : Follows edge left s.current.kind) (hm : s.ahead.length ≤ m)
    (hn : s.ahead.length ≤ bound) (h : g.extended inner level m left s = .ok e t) :
    ReadFrom s₀ level e t := by
  induction m generalizing edge left before s with
  | zero =>
    have hend : s.current.kind = .eof := by
      rw [kind_current, List.length_eq_zero_iff.mp (Nat.le_zero.mp hm)]
      rfl
    cases h
    exact ⟨edge, before, hleft, hpasses, hfits, hfollows, stops_of_none (by rw [hend]; rfl)⟩
  | succ m ih =>
    rw [extended, kind_bind, hg.joining] at h
    cases hjoins : standardJoining? s.current.kind with
    | none =>
      rw [hjoins] at h
      cases h
      exact ⟨edge, before, hleft, hpasses, hfits, hfollows, stops_of_none hjoins⟩
    | some entry =>
      obtain ⟨tightness, form⟩ := entry
      simp only [hjoins] at h
      by_cases hlevel : level < tightness
      · rw [if_pos hlevel] at h
        obtain ⟨wider, s₁, h₁, h⟩ := bind_eq_ok_iff.mp h
        obtain ⟨edge', behind, hwider, hpasses₁, hpos, hop, hfollows'⟩ :=
          written_of_joined hinner hleft hfollows hjoins hn h₁
        have hfits' : Fits level edge' wider := by
          refine Or.inr fun op hmem => ?_
          rw [← hop op hmem]
          exact hlevel
        exact ih hwider (hpasses.trans hpasses₁) hfits' hfollows'
          (hpasses₁.length_le_pred hpos hm) (hpasses₁.length_le hn) h
      · rw [if_neg hlevel] at h
        cases h
        refine ⟨edge, before, hleft, hpasses, hfits, hfollows, fun tightness' form' hjoins' => ?_⟩
        rw [hjoins] at hjoins'
        cases hjoins'
        exact Level.not_lt_iff.mp hlevel

/-- Reading an expression passes a text of it. The form at its start has taken a token, so the bound
inside is enough for the loop too. -/
theorem readsOnlyWritten_exprWithin (hg : g.HasExpressions) (n : Nat) :
    ReadsOnlyWritten (fun level => g.exprWithin n level) n := by
  induction n with
  | zero =>
    intro level s e t _ h
    cases h
  | succ n ih =>
    intro level s e t hn h
    change g.exprWithin (n + 1) level s = .ok e t at h
    rw [exprWithin, kind_bind, hg.opening] at h
    cases hopens : standardOpening? s.current.kind with
    | none =>
      rw [hopens] at h
      cases h
    | some form =>
      simp only [hopens] at h
      obtain ⟨left, s₁, h₁, h⟩ := bind_eq_ok_iff.mp h
      obtain ⟨edge, before, hleft, hpasses, hgrouped, hfollows⟩ :=
        opened_openedFrom ih hopens hn h₁
      have hfits : Fits level edge left := by
        refine hgrouped.imp_right fun hnone op hmem => ?_
        rw [hnone] at hmem
        cases hmem
      have hn₁ : s₁.ahead.length ≤ n := hpasses.length_le_pred hleft.opens.length_pos hn
      exact readFrom_of_extended hg ih hleft hpasses hfits hfollows hn₁ hn₁ h

end Joins

end Expr

end Piecewise
