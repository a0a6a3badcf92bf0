import Piecewise.Proofs.Grammar.Steps
import Piecewise.Proofs.Grammar.Written

/-!
# Reading what is written

Every text of an expression is read back as the expression, spans apart, up to a token that cannot
belong to it. The invariant is stated for reading at any level with anything behind the text: what
is read then stands on the left of whatever the token behind the text joins it to.
-/

namespace Piecewise

open Piecewise.Parser Piecewise.TokenStream

namespace Expr

open Grammar

section Reads

variable {g : Grammar} {edge : Edge} {e : Expr} {text : List Token}

/-- What a text of an expression does when it is read: the expression is read, and then stands on
the left of what follows. -/
def Reads (g : Grammar) (edge : Edge) (e : Expr) (text : List Token) : Prop :=
  ∀ (n : Nat) (level : Level) (s : TokenStream) (rest : List Token),
    s.ahead = text ++ rest → s.ahead.length ≤ n + 1 → level < .call → Fits level edge e →
    Follows edge e (front rest) →
    ∃ e' t m, g.exprWithin (n + 1) level s =
        g.extended (fun l => g.exprWithin n l) level m e' t ∧
      e'.bare = e.bare ∧ s.Passes text t ∧ t.ahead.length ≤ m

/-- Before a token that ends it, the expression is all that is read. -/
theorem Reads.whole (hg : g.HasExpressions) (h : Reads g edge e text) (hopens : Opens text)
    {n : Nat} {level : Level} {s : TokenStream} {rest : List Token} (hs : s.ahead = text ++ rest)
    (hn : s.ahead.length ≤ n) (hlevel : level < .call) (hfits : Fits level edge e)
    (hfollows : Follows edge e (front rest)) (hstops : Stops level (front rest)) :
    ∃ e' t, g.exprWithin n level s = .ok e' t ∧ e'.bare = e.bare ∧ s.Passes text t := by
  have hpos := hopens.length_pos
  cases n with
  | zero =>
    rw [hs, List.length_append] at hn
    omega
  | succ n =>
    obtain ⟨e', t, m, hread, hbare, hpasses, _⟩ := h n level s rest hs hn hlevel hfits hfollows
    refine ⟨e', t, ?_, hbare, hpasses⟩
    rw [hread]
    refine extended_of_stops hg ?_
    rw [kind_current, hpasses.rest hs]
    exact hstops

/-- Between tokens that join nothing, the expression is all that is read at the loosest level. -/
theorem Reads.inside (hg : g.HasExpressions) (h : Reads g edge e text) (hopens : Opens text)
    {n : Nat} {s : TokenStream} {rest : List Token} (hs : s.ahead = text ++ rest)
    (hn : s.ahead.length ≤ n) (hnone : standardJoining? (front rest) = none) :
    ∃ e' t, g.exprWithin n .default s = .ok e' t ∧ e'.bare = e.bare ∧ s.Passes text t :=
  h.whole hg hopens hs hn (by decide) fits_default (follows_of_none hnone) (stops_of_none hnone)

/-- A form that its first token opens is read as it is. -/
theorem reads_of_opened (hg : g.HasExpressions) (form : Opening) (hpos : 0 < text.length)
    (hopens : standardOpening? (front text) = some form)
    (hread : ∀ (n : Nat) (s : TokenStream) (rest : List Token), s.ahead = text ++ rest →
      s.ahead.length ≤ n + 1 → Follows edge e (front rest) →
      ∃ e' t, opened (fun l => g.exprWithin n l) n form s = .ok e' t ∧ e'.bare = e.bare ∧
        s.Passes text t) :
    Reads g edge e text := by
  intro n level s rest hs hn _ _ hfollows
  obtain ⟨e', t, hok, hbare, hpasses⟩ := hread n s rest hs hn hfollows
  have hkind : standardOpening? s.current.kind = some form := by
    rw [kind_current, hs, front_append (List.length_pos_iff.mp hpos)]
    exact hopens
  refine ⟨e', t, n, exprWithin_of_opened hg hkind hok, hbare, hpasses, ?_⟩
  have hlength := hpasses.length
  omega

end Reads

section Forms

variable {g : Grammar} {edge : Edge} {e : Expr} {inside : List Token} {first last : Token}

/-- A token that is an expression by itself. -/
theorem reads_primary (hg : g.HasExpressions) {token : Token}
    (hopens : standardOpening? token.kind = some .primary)
    (hread : ∀ s t, advance s = .ok token t → ∃ e', primary s = .ok e' t ∧ e'.bare = e.bare) :
    Reads g .closed e [token] := by
  refine reads_of_opened hg .primary Nat.one_pos hopens fun n s rest hs hn _ => ?_
  obtain ⟨t, hadvance, hpasses, _⟩ := advance_of_ahead hs
  obtain ⟨e', hok, hbare⟩ := hread s t hadvance
  exact ⟨e', t, hok, hbare, hpasses⟩

theorem reads_boolean (hg : g.HasExpressions) {span : Span} {value : Bool} {token : Token}
    (h : token.kind = if value then .trueWord else .falseWord) :
    Reads g .closed (.boolean span value) [token] := by
  cases value with
  | true =>
    refine reads_primary hg (by rw [h]; rfl) fun s t hadvance =>
      ⟨.boolean token.span true, ?_, rfl⟩
    rw [primary, bind_of_ok hadvance, h]
    rfl
  | false =>
    refine reads_primary hg (by rw [h]; rfl) fun s t hadvance =>
      ⟨.boolean token.span false, ?_, rfl⟩
    rw [primary, bind_of_ok hadvance, h]
    rfl

theorem reads_number (hg : g.HasExpressions) {span : Span} {value : Float} {token : Token}
    (h : token.kind = .number) (read : Decimal.read? token.value = some value) :
    Reads g .closed (.number span value) [token] := by
  refine reads_primary hg (by rw [h]; rfl) fun s t hadvance =>
    ⟨.number token.span value, ?_, rfl⟩
  rw [primary, bind_of_ok hadvance, h]
  simp only [read]
  rfl

theorem reads_text (hg : g.HasExpressions) {span : Span} {token : Token} (h : token.kind = .text) :
    Reads g .closed (.text span token.value) [token] := by
  refine reads_primary hg (by rw [h]; rfl) fun s t hadvance =>
    ⟨.text token.span token.value, ?_, rfl⟩
  rw [primary, bind_of_ok hadvance, h]
  rfl

theorem reads_identifier (hg : g.HasExpressions) {span : Span} {token : Token}
    (h : token.kind = .identifier) : Reads g .closed (.identifier span token.value) [token] := by
  refine reads_primary hg (by rw [h]; rfl) fun s t hadvance =>
    ⟨.identifier token.span token.value, ?_, rfl⟩
  rw [primary, bind_of_ok hadvance, h]
  rfl

theorem reads_group (hg : g.HasExpressions) (h : Reads g edge e inside) (hopens : Opens inside)
    (hfirst : first.kind = .openParen) (hlast : last.kind = .closeParen) :
    Reads g .grouped e (first :: (inside ++ [last])) := by
  refine reads_of_opened hg .group (Nat.succ_pos _) (by rw [front, hfirst]; rfl)
    fun n s rest hs hn _ => ?_
  have hs : s.ahead = first :: (inside ++ last :: rest) := by simpa using hs
  obtain ⟨s₁, hok₁, hpasses₁, hs₁⟩ := expect_of_ahead hs hfirst
  have hn₁ : s₁.ahead.length ≤ n := hpasses₁.length_le_pred Nat.one_pos hn
  obtain ⟨e', s₂, hok₂, hbare, hpasses₂⟩ :=
    h.inside hg hopens hs₁ hn₁ (by rw [front, hlast]; rfl)
  obtain ⟨t, hok₃, hpasses₃, _⟩ := expect_of_ahead (hpasses₂.rest hs₁) hlast
  refine ⟨e', t, ?_, hbare, hpasses₁.trans (hpasses₂.trans hpasses₃)⟩
  rw [opened, group, bind_of_ok hok₁, bind_of_ok hok₂, bind_of_ok hok₃]
  rfl

/-- Expressions with commas between them, up to a closing token. -/
theorem reads_listed (hg : g.HasExpressions) {close : TokenKind} {pieces : List Piece}
    (hclose : standardJoining? close = none) (hcomma : close ≠ .comma)
    (hopening : standardOpening? close = none)
    (h : ∀ p ∈ pieces, Reads g p.edge p.expr p.text ∧ Opens p.text)
    (listed : Listed Piece.text pieces inside) {m n : Nat} {s : TokenStream} {rest : List Token}
    (hs : s.ahead = inside ++ last :: rest) (hlast : last.kind = close)
    (hm : s.ahead.length ≤ m) (hn : s.ahead.length ≤ n) :
    ∃ es t, separated (g.exprWithin n .default) close m s = .ok es t ∧
      es.map bare = (pieces.map Piece.expr).map bare ∧ s.Passes inside t := by
  rw [List.map_map]
  refine separated_of_listed hcomma listed (fun p hp => ?_) (fun p hp s rest hs hn hnext => ?_) hs
    hlast hm hn
  · obtain ⟨form, hform⟩ := (h p hp).2
    refine ⟨List.length_pos_iff.mp (h p hp).2.length_pos, fun heq => ?_⟩
    rw [heq, hopening] at hform
    cases hform
  · obtain ⟨hreads, hopens⟩ := h p hp
    refine hreads.inside hg hopens hs hn ?_
    rcases hnext with hnext | hnext
    · rw [hnext]; rfl
    · rw [hnext]; exact hclose

theorem reads_list (hg : g.HasExpressions) {span : Span} {elements : List Piece}
    (hfirst : first.kind = .openBracket) (hlast : last.kind = .closeBracket)
    (h : ∀ p ∈ elements, Reads g p.edge p.expr p.text ∧ Opens p.text)
    (listed : Listed Piece.text elements inside) :
    Reads g .closed (.list span (elements.map Piece.expr)) (first :: (inside ++ [last])) := by
  refine reads_of_opened hg .list (Nat.succ_pos _) (by rw [front, hfirst]; rfl)
    fun n s rest hs hn _ => ?_
  have hs : s.ahead = first :: (inside ++ last :: rest) := by simpa using hs
  obtain ⟨s₁, hok₁, hpasses₁, hs₁⟩ := expect_of_ahead hs hfirst
  have hn₁ : s₁.ahead.length ≤ n := hpasses₁.length_le_pred Nat.one_pos hn
  obtain ⟨es, s₂, hok₂, hbare, hpasses₂⟩ :=
    reads_listed hg rfl (by decide) rfl h listed hs₁ hlast hn₁ hn₁
  obtain ⟨t, hok₃, hpasses₃, _⟩ := expect_of_ahead (hpasses₂.rest hs₁) hlast
  refine ⟨.list ⟨first.span.start, t.before⟩ es, t, ?_, ?_,
    hpasses₁.trans (hpasses₂.trans hpasses₃)⟩
  · rw [opened, Grammar.list, bind_of_ok hok₁, bind_of_ok hok₂, bind_of_ok hok₃]
    rfl
  · simp only [bare, bareAll_eq_map, hbare]

/-- A call joins a name to its arguments. A name in parentheses is read as the name, so it can be
called all the same. -/
theorem reads_call (hg : g.HasExpressions) {span nameSpan : Span} {callee : String}
    {name : List Token} {arguments : List Piece}
    (hname : Reads g edge (.identifier nameSpan callee) name)
    (hopens : Opens name) (hedge : edge ≠ .dangling)
    (hfirst : first.kind = .openParen) (hlast : last.kind = .closeParen)
    (h : ∀ p ∈ arguments, Reads g p.edge p.expr p.text ∧ Opens p.text)
    (listed : Listed Piece.text arguments inside) :
    Reads g .closed (.call span callee (arguments.map Piece.expr))
      (name ++ first :: (inside ++ [last])) := by
  intro n level s rest hs hn hlevel _ _
  have hs : s.ahead = name ++ first :: (inside ++ last :: rest) := by simpa using hs
  have hfits : Fits level edge (.identifier nameSpan callee) := Or.inr (by simp [operator?])
  have hfollows : Follows edge (.identifier nameSpan callee)
      (front (first :: (inside ++ last :: rest))) := by
    refine follows_of_lastLevel?_eq_none ?_
    cases edge with
    | dangling => exact absurd rfl hedge
    | grouped => rfl
    | closed => rfl
  obtain ⟨e', s₁, m, hread, hcallee, hpasses₁, hm⟩ := hname n level s _ hs hn hlevel hfits hfollows
  obtain ⟨span', rfl⟩ := eq_identifier_of_bare hcallee
  have hs₁ := hpasses₁.rest hs
  obtain ⟨s₂, hok₂, hpasses₂, hs₂⟩ := expect_of_ahead hs₁ hfirst
  cases m with
  | zero => simp [hs₁] at hm
  | succ m =>
    have hm₂ : s₂.ahead.length ≤ m := hpasses₂.length_le_pred Nat.one_pos hm
    have hn₂ : s₂.ahead.length ≤ n :=
      hpasses₂.length_le (hpasses₁.length_le_pred hopens.length_pos hn)
    obtain ⟨es, s₃, hok₃, hbare, hpasses₃⟩ :=
      reads_listed hg rfl (by decide) rfl h listed hs₂ hlast hm₂ hn₂
    obtain ⟨t, hok₄, hpasses₄, _⟩ := expect_of_ahead (hpasses₃.rest hs₂) hlast
    have hjoins : standardJoining? s₁.current.kind = some (.call, .call) := by
      rw [kind_current, hs₁, front, hfirst]
      rfl
    have hcall : joined (fun l => g.exprWithin n l) m (.identifier span' callee) .call .call s₁ =
        .ok (.call ⟨span'.start, t.before⟩ callee es) t := by
      rw [joined, Grammar.call, bind_of_ok hok₂, bind_of_ok hok₃, bind_of_ok hok₄]
      rfl
    refine ⟨_, t, m, hread.trans (extended_of_joined hg hjoins hlevel hcall), ?_,
      hpasses₁.trans (hpasses₂.trans (hpasses₃.trans hpasses₄)), ?_⟩
    · simp only [bare, bareAll_eq_map, hbare]
    · exact hpasses₄.length_le (hpasses₃.length_le hm₂)

/-- An operator before its operand. -/
theorem reads_unary (hg : g.HasExpressions) {span : Span} {op : UnaryOp} {sign : Token}
    (hsign : sign.kind = op.kind) (h : Reads g edge e inside) (hopens : Opens inside)
    (fits : edge = .grouped ∨ e.operator? = none) :
    Reads g edge.outside (.unary span op e) (sign :: inside) := by
  have hopening : standardOpening? sign.kind = some .signed := by
    rw [hsign]
    cases op <;> rfl
  refine reads_of_opened hg .signed (Nat.succ_pos _) hopening fun n s rest hs hn hfollows => ?_
  rw [follows_unary_iff fits] at hfollows
  obtain ⟨s₁, hok₁, hpasses₁, hs₁⟩ := advance_of_ahead hs
  have hn₁ : s₁.ahead.length ≤ n := hpasses₁.length_le_pred Nat.one_pos hn
  obtain ⟨e', t, hok₂, hbare, hpasses₂⟩ :=
    h.whole hg hopens hs₁ hn₁ (by decide) (fits_unary_iff.mpr fits) hfollows.1 hfollows.2
  have hop : (if sign.kind = .notWord then UnaryOp.not else .negate) = op := by
    rw [hsign]
    cases op <;> rfl
  refine ⟨.unary ⟨sign.span.start, e'.span.stop⟩ op e', t, ?_, ?_, hpasses₁.trans hpasses₂⟩
  · rw [opened, signed, bind_of_ok hok₁, hop, bind_of_ok hok₂]
    rfl
  · simp only [bare, hbare]

/-- A condition with an expression for either case, the last of which goes on as far as it can. -/
theorem reads_conditional (hg : g.HasExpressions) {span : Span}
    {edgeTrue edgeFalse : Edge} {whenTrue whenFalse : Expr} {textTrue textFalse : List Token}
    {ifToken thenToken elseToken : Token} (hif : ifToken.kind = .ifWord)
    (hthen : thenToken.kind = .thenWord) (helse : elseToken.kind = .elseWord)
    (h : Reads g edge e inside) (hopens : Opens inside)
    (htrue : Reads g edgeTrue whenTrue textTrue) (hopensTrue : Opens textTrue)
    (hfalse : Reads g edgeFalse whenFalse textFalse) (hopensFalse : Opens textFalse) :
    Reads g .dangling (.conditional span e whenTrue whenFalse)
      (ifToken :: (inside ++ thenToken :: (textTrue ++ elseToken :: textFalse))) := by
  refine reads_of_opened hg .conditional (Nat.succ_pos _) (by rw [front, hif]; rfl)
    fun n s rest hs hn hfollows => ?_
  rw [follows_dangling_iff] at hfollows
  have hs : s.ahead =
      ifToken :: (inside ++ thenToken :: (textTrue ++ elseToken :: (textFalse ++ rest))) := by
    simpa using hs
  obtain ⟨s₁, hok₁, hpasses₁, hs₁⟩ := expect_of_ahead hs hif
  have hn₁ : s₁.ahead.length ≤ n := hpasses₁.length_le_pred Nat.one_pos hn
  obtain ⟨condition', s₂, hok₂, hbare, hpasses₂⟩ :=
    h.inside hg hopens hs₁ hn₁ (by rw [front, hthen]; rfl)
  obtain ⟨s₃, hok₃, hpasses₃, hs₃⟩ := expect_of_ahead (hpasses₂.rest hs₁) hthen
  have hn₃ : s₃.ahead.length ≤ n := hpasses₃.length_le (hpasses₂.length_le hn₁)
  obtain ⟨whenTrue', s₄, hok₄, hbareTrue, hpasses₄⟩ :=
    htrue.inside hg hopensTrue hs₃ hn₃ (by rw [front, helse]; rfl)
  obtain ⟨s₅, hok₅, hpasses₅, hs₅⟩ := expect_of_ahead (hpasses₄.rest hs₃) helse
  have hn₅ : s₅.ahead.length ≤ n := hpasses₅.length_le (hpasses₄.length_le hn₃)
  obtain ⟨whenFalse', t, hok₆, hbareFalse, hpasses₆⟩ :=
    hfalse.inside hg hopensFalse hs₅ hn₅ hfollows
  refine ⟨.conditional ⟨ifToken.span.start, t.before⟩ condition' whenTrue' whenFalse', t, ?_, ?_,
    hpasses₁.trans (hpasses₂.trans (hpasses₃.trans (hpasses₄.trans (hpasses₅.trans hpasses₆))))⟩
  · rw [opened, Grammar.conditional, bind_of_ok hok₁, bind_of_ok hok₂, bind_of_ok hok₃,
      bind_of_ok hok₄, bind_of_ok hok₅, bind_of_ok hok₆]
    rfl
  · simp only [bare, hbare, hbareTrue, hbareFalse]

theorem reads_binary (hg : g.HasExpressions) {leftEdge rightEdge : Edge} {span : Span}
    {op : BinaryOp} {left right : Expr} {before behind : List Token} {sign : Token}
    (hsign : sign.kind = op.kind) (hleft : Reads g leftEdge left before) (hopens : Opens before)
    (hright : Reads g rightEdge right behind) (hopensRight : Opens behind)
    (ends : leftEdge ≠ .dangling)
    (leftFits : leftEdge = .grouped ∨ ∀ inner ∈ left.operator?, op.LeftFits inner)
    (rightFits : rightEdge = .grouped ∨ ∀ inner ∈ right.operator?, op.RightFits inner) :
    Reads g rightEdge.outside (.binary span op left right) (before ++ sign :: behind) := by
  intro n level s rest hs hn hlevel hfits hfollows
  have hs : s.ahead = before ++ sign :: (behind ++ rest) := by simpa using hs
  rw [follows_binary_iff rightFits] at hfollows
  have hop : level < op.level := by
    rcases hfits with hgrouped | hfits
    · cases rightEdge <;> cases hgrouped
    · exact hfits op rfl
  have hleftFits : Fits level leftEdge left := by
    refine leftFits.imp_right fun hfit inner hinner => ?_
    exact Level.lt_of_lt_of_le hop (BinaryOp.level_le_of_leftFits op inner (hfit inner hinner))
  have hleftFollows : Follows leftEdge left (front (sign :: (behind ++ rest))) := by
    rw [front, hsign]
    exact follows_operator_iff.mpr ⟨ends, leftFits⟩
  obtain ⟨left', s₁, m, hread, hbare₁, hpasses₁, hm⟩ :=
    hleft n level s _ hs hn hlevel hleftFits hleftFollows
  have hs₁ := hpasses₁.rest hs
  obtain ⟨s₂, hadvance, hpasses₂, hs₂⟩ := advance_of_ahead hs₁
  cases m with
  | zero => simp [hs₁] at hm
  | succ m =>
    have hm₂ : s₂.ahead.length ≤ m := hpasses₂.length_le_pred Nat.one_pos hm
    have hn₂ : s₂.ahead.length ≤ n :=
      hpasses₂.length_le (hpasses₁.length_le_pred hopens.length_pos hn)
    have hcall : op.rightLevel < .call := Nat.lt_succ_of_lt op.rightLevel_lt_unary
    obtain ⟨right', t, hok, hbare₂, hpasses₃⟩ :=
      hright.whole hg hopensRight hs₂ hn₂ hcall (fits_rightLevel_iff.mpr rightFits) hfollows.1
        hfollows.2
    have hjoins : standardJoining? s₁.current.kind = some (op.level, joiningForm op) := by
      rw [current_of_ahead hs₁, hsign]
      exact standardJoining?_kind op
    have hkind : BinaryOp.ofKind? sign.kind = some op := hsign ▸ op.ofKind?_kind
    have hjoined : joined (fun l => g.exprWithin n l) m left' op.level (joiningForm op) s₁ =
        .ok (.between op left' right') t :=
      (joined_eq_ok_iff hkind hadvance).mpr ⟨right', hok, rfl⟩
    exact ⟨_, t, m, hread.trans (extended_of_joined hg hjoins hop hjoined),
      bare_between hbare₁ hbare₂, hpasses₁.trans (hpasses₂.trans hpasses₃),
      hpasses₃.length_le hm₂⟩

end Forms

/-- Every text of an expression is read as the expression, which then stands on the left of what
follows. -/
theorem Written.reads {g : Grammar} (hg : g.HasExpressions) {edge : Edge} {e : Expr}
    {text : List Token} (h : Written edge e text) : Reads g edge e text := by
  induction h with
  | boolean h => exact reads_boolean hg h
  | number h read => exact reads_number hg h read
  | text h => exact reads_text hg h
  | identifier h => exact reads_identifier hg h
  | group hfirst hlast h ih => exact reads_group hg ih h.opens hfirst hlast
  | list hfirst hlast h listed ih =>
    exact reads_list hg hfirst hlast (fun p hp => ⟨ih p hp, (h p hp).opens⟩) listed
  | call hname hfirst hlast h listed ihname ih =>
    exact reads_call hg ihname hname.opens hname.ne_dangling_of_identifier hfirst hlast
      (fun p hp => ⟨ih p hp, (h p hp).opens⟩) listed
  | unary hsign h fits ih => exact reads_unary hg hsign ih h.opens fits
  | binary hsign hleft hright ends leftFits rightFits ihleft ihright =>
    exact reads_binary hg hsign ihleft hleft.opens ihright hright.opens ends leftFits rightFits
  | conditional hif hthen helse h htrue hfalse ih ihtrue ihfalse =>
    exact reads_conditional hg hif hthen helse ih h.opens ihtrue htrue.opens ihfalse hfalse.opens

end Expr

namespace Grammar

/-- A text of an expression is read back as the expression, spans apart, and the token behind the
text is the next one, if it is neither an operator between operands nor an opening parenthesis. -/
theorem expr_of_written (g : Grammar) {edge : Expr.Edge} {e : Expr} {text rest : List Token}
    (h : e.Written edge text) {s : TokenStream} (hs : s.ahead = text ++ rest)
    (hop : BinaryOp.ofKind? (front rest) = none) (hparen : front rest ≠ .openParen) :
    ∃ e' t, g.withExpressions.expr .default s = .ok e' t ∧ e'.bare = e.bare ∧
      t.ahead = rest ∧ t.endToken = s.endToken := by
  have hg := withExpressions_hasExpressions g
  have hnone : standardJoining? (front rest) = none := standardJoining?_eq_none hop hparen
  obtain ⟨e', t, hok, hbare, hpasses⟩ :=
    (h.reads hg).inside hg h.opens hs (Nat.le_refl _) hnone
  exact ⟨e', t, hok, hbare, hpasses.rest hs, hpasses.ending⟩

section Powers

open Token (plain)

/-- The text `[d,]`. -/
def listText : List Token :=
  plain .openBracket "[" :: ((([plain .identifier "d"] ++ plain .comma "," :: []) ++
    [plain .closeBracket "]"]))

/-- The text `f([d,])`. -/
def callText : List Token :=
  [plain .identifier "f"] ++ plain .openParen "(" :: (listText ++ [plain .closeParen ")"])

/-- The text `-a ^ b ^ (if c then 1 else f([d,]))`: a sign binds more tightly than a power, and a
power needs no parentheses on the right of a power. -/
def powersText : List Token :=
  (plain .dash "-" :: [plain .identifier "a"]) ++ plain .caret "^" ::
    ([plain .identifier "b"] ++ plain .caret "^" ::
      (plain .openParen "(" ::
        ((plain .ifWord "if" :: ([plain .identifier "c"] ++ plain .thenWord "then" ::
          ([plain .number "1"] ++ plain .elseWord "else" :: callText))) ++
        [plain .closeParen ")"])))

def rightPower : Expr :=
  .binary default (.arithmetic .power) (.identifier default "b")
    (.conditional default (.identifier default "c") (.number default (Decimal.nearest ['1'] 0))
      (.call default "f" [.list default [.identifier default "d"]]))

def powersExpr : Expr :=
  .binary default (.arithmetic .power) (.unary default .negate (.identifier default "a")) rightPower

theorem written_powersExpr : ∃ edge, powersExpr.Written edge powersText := by
  have hname : ∀ name, Expr.Written .closed (.identifier default name) [plain .identifier name] :=
    fun name => @Expr.Written.identifier default (plain .identifier name) rfl
  have hnumber : Expr.Written .closed (.number default (Decimal.nearest ['1'] 0))
      [plain .number "1"] := .number rfl rfl
  have hlist : Expr.Written .closed (.list default [.identifier default "d"]) listText := by
    let d : Expr.Piece := ⟨.closed, .identifier default "d", [plain .identifier "d"]⟩
    have hlisted : Listed Expr.Piece.text [d] ([plain .identifier "d"] ++ plain .comma "," :: []) :=
      @Listed.more _ _ d [] _ _ rfl .none
    exact .list rfl rfl (by simpa using hname "d") hlisted
  have hcall : Expr.Written .closed
      (.call default "f" [.list default [.identifier default "d"]]) callText := by
    let list : Expr.Piece := ⟨.closed, .list default [.identifier default "d"], listText⟩
    have hlisted : Listed Expr.Piece.text [list] listText := .one
    exact .call (hname "f") rfl rfl (by simpa using hlist) hlisted
  have hfits : ∀ inner ∈ rightPower.operator?, (BinaryOp.arithmetic .power).RightFits inner := by
    rintro inner hinner
    cases hinner
    exact Level.le_refl _
  exact ⟨_, .binary rfl (.unary rfl (hname "a") (Or.inr rfl))
    (.binary rfl (hname "b") (.group rfl rfl (.conditional rfl rfl rfl (hname "c") hnumber hcall))
      (by decide) (Or.inr (by simp [Expr.operator?])) (Or.inl rfl))
    (by decide) (Or.inr (by simp [Expr.operator?])) (Or.inr hfits)⟩

/-- The text with a semicolon behind it. -/
def powersStream : TokenStream :=
  ⟨.first "", powersText ++ [plain .semicolon ";"], "EOF", .at (.first "")⟩

theorem expr_of_written_powersExpr : ∃ edge, powersExpr.Written edge powersText ∧
    powersStream.ahead = powersText ++ [plain .semicolon ";"] ∧
    BinaryOp.ofKind? (front [plain .semicolon ";"]) = none ∧
    front [plain .semicolon ";"] ≠ .openParen ∧
    ∃ e t, empty.withExpressions.expr .default powersStream = .ok e t ∧ e.bare = powersExpr.bare ∧
      t.ahead = [plain .semicolon ";"] ∧ t.endToken = powersStream.endToken := by
  obtain ⟨edge, h⟩ := written_powersExpr
  exact ⟨edge, h, rfl, rfl, by decide, expr_of_written empty h rfl rfl (by decide)⟩

end Powers

end Grammar

end Piecewise
