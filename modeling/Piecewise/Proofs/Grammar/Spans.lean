import Piecewise.Grammar.Program
import Piecewise.Proofs.Diagnostic.Outcome
import Piecewise.Proofs.Grammar.Steps
import Piecewise.Proofs.Program.Nodes
import Piecewise.Proofs.Source.Spans

/-!
# The spans that reading makes

Whatever reads an expression or a type from tokens that stand in order takes the span of it from the
tokens that it passes: it starts no earlier than the first of these and stops no later than the last
one. Parentheses are passed and leave the span inside as it is, so it may be narrower. All that
follows starts behind what was passed, and so the parts of a node stand one behind the other inside
it. Where reading fails, it fails at a token ahead or at the end of the source.
-/

namespace Piecewise

open Piecewise.Parser Piecewise.Span

/-- The span of a node starts at a place of the given sort, and its parts nest in it. -/
structure Span.Placed (S : Position → Prop) (span : Span) (parts : List Span) : Prop where
  start : S span.start
  nests : span.Nests parts

namespace TokenStream

/-- Where the next token starts. -/
def here (s : TokenStream) : Position := s.current.span.start

/-- The tokens ahead start at places of the given sort. They stand in order, none before the place
where the token read last stops and none behind the place where the source ends. -/
structure Ordered (S : Position → Prop) (fin : Position) (s : TokenStream) : Prop where
  between : Between s.before (s.ahead.map Token.span) fin
  starts : ∀ t ∈ s.ahead, S t.span.start
  ending : s.endSpan.start = fin

/-- A token is taken from a stream, and another stream is left. -/
structure Takes (S : Position → Prop) (s : TokenStream) (token : Token) (t : TokenStream) :
    Prop where
  start : token.span.start = s.here
  starts : S token.span.start
  stop : token.span.stop = t.before
  le : s.here ≤ t.before

variable {S : Position → Prop} {fin : Position} {s : TokenStream}

theorem Ordered.before_le (h : s.Ordered S fin) : s.before ≤ s.here := by
  obtain ⟨hbetween, _, hending⟩ := h
  unfold here current
  cases hahead : s.ahead with
  | nil =>
    rw [hahead] at hbetween
    rw [endToken, hending]
    exact hbetween
  | cons token rest =>
    rw [hahead] at hbetween
    exact hbetween.1

/-- Where the next token starts a token ahead does, or the source ends. -/
theorem Ordered.point (h : s.Ordered S fin) : S s.here ∨ s.here = fin := by
  unfold here current
  cases hahead : s.ahead with
  | nil => exact Or.inr h.ending
  | cons token rest => exact Or.inl (h.starts token (by rw [hahead]; exact List.mem_cons_self))

/-- What is left once a token is taken is in order again. -/
theorem Ordered.next (h : s.Ordered S fin) (hkind : s.current.kind ≠ .eof) :
    s.next.Ordered S fin ∧ s.Takes S s.current s.next := by
  obtain ⟨hbetween, hstarts, hending⟩ := h
  cases hahead : s.ahead with
  | nil =>
    rw [current, hahead] at hkind
    exact absurd rfl hkind
  | cons token rest =>
    have hcurrent : s.current = token := current_of_ahead hahead
    have hnext : s.next = { s with before := token.span.stop, ahead := rest } := by
      rw [TokenStream.next, hahead]
    rw [hahead] at hbetween hstarts
    obtain ⟨_, hordered, hrest⟩ := hbetween
    obtain ⟨hfirst, hlater⟩ := List.forall_mem_cons.mp hstarts
    rw [hnext]
    exact ⟨⟨hrest, hlater, hending⟩, ⟨rfl, hcurrent ▸ hfirst, congrArg (·.span.stop) hcurrent,
      by rw [here, hcurrent]; exact hordered⟩⟩

end TokenStream

namespace Parser

open TokenStream

/-- A step that leaves the tokens ahead in order and has a result as asked for, or fails at a token
ahead or at the end of the source. -/
def Reads {α : Type} (S : Position → Prop) (fin : Position) (step : Parser α) (s : TokenStream)
    (Q : α → TokenStream → Prop) : Prop :=
  Yields (·.PointsAt fun p => S p ∨ p = fin) step s fun a t => t.Ordered S fin ∧ Q a t

section Steps

variable {α β : Type} {S : Position → Prop} {fin : Position} {s : TokenStream} {kind : TokenKind}
  {Q : α → TokenStream → Prop}

theorem Reads.bind {step : Parser α} {next : α → Parser β} {R : β → TokenStream → Prop}
    (h : Reads S fin step s Q)
    (k : ∀ a t, t.Ordered S fin → Q a t → Reads S fin (next a) t R) :
    Reads S fin (step >>= next) s R :=
  Yields.bind h fun a t ht => k a t ht.1 ht.2

/-- A choice by the kind of the next token. -/
theorem Reads.byKind {f : TokenKind → Parser α} (h : Reads S fin (f s.current.kind) s Q) :
    Reads S fin (Parser.kind >>= f) s Q := h

theorem Reads.pure {a : α} (hs : s.Ordered S fin) (h : Q a s) : Reads S fin (Pure.pure a) s Q :=
  Yields.pure ⟨hs, h⟩

/-- A result made from where the token read last stops. -/
theorem Reads.stopped {f : Position → α} (hs : s.Ordered S fin) (h : Q (f s.before) s) :
    Reads S fin (Parser.stopped >>= fun p => Pure.pure (f p)) s Q := ⟨hs, h⟩

/-- A failure at a token. -/
theorem Reads.fail {d : Diagnostic} {p : Position} (hd : d.position = some p) (hp : S p ∨ p = fin) :
    Reads S fin (MonadExcept.throw d) s Q := ⟨p, hd, hp⟩

theorem unexpected_reads (hs : s.Ordered S fin) : Reads S fin unexpected s Q :=
  ⟨_, rfl, hs.point⟩

theorem unexpectedBecause_reads (hs : s.Ordered S fin) (message : String) :
    Reads S fin (unexpectedBecause message) s Q := ⟨_, rfl, hs.point⟩

theorem advance_reads (hs : s.Ordered S fin) (hkind : s.current.kind ≠ .eof) :
    Reads S fin advance s fun token t => token = s.current ∧ s.Takes S token t :=
  ⟨(hs.next hkind).1, rfl, (hs.next hkind).2⟩

/-- A token of a kind that the end of the source does not have. -/
theorem expectOr_reads (hs : s.Ordered S fin) (hkind : kind ≠ .eof)
    {failure : Token → Diagnostic} (hfailure : (failure s.current).position = some s.here) :
    Reads S fin (expectOr kind failure) s (s.Takes S) := by
  change Reads S fin (if s.current.kind = kind then advance else throw (failure s.current)) s _
  split
  · rename_i hcurrent
    exact (advance_reads hs (hcurrent ▸ hkind)).weaken fun _ _ h => ⟨h.1, h.2.2⟩
  · exact .fail hfailure hs.point

theorem expect_reads (hs : s.Ordered S fin) (hkind : kind ≠ .eof) :
    Reads S fin (expect kind) s (s.Takes S) := expectOr_reads hs hkind rfl

theorem eat_reads (hs : s.Ordered S fin) (hkind : kind ≠ .eof) :
    Reads S fin (eat kind) s fun _ t => s.before ≤ t.before := by
  change Reads S fin (if s.current.kind = kind then
    (advance >>= fun _ => Pure.pure true) else Pure.pure false) s _
  split
  · rename_i hcurrent
    refine (advance_reads hs (hcurrent ▸ hkind)).bind fun token t ht htakes => ?_
    exact .pure ht (le_trans hs.before_le htakes.2.le)
  · exact .pure hs (le_refl _)

end Steps

section Nodes

variable {α : Type} {S : Position → Prop} {fin lo : Position} {s t : TokenStream} {span : α → Span}
  {P : α → Prop} {a : α}

/-- What is read from a place on is as asked for, and its span covers no token that is left. -/
def One (span : α → Span) (P : α → Prop) (lo : Position) (a : α) (t : TokenStream) : Prop :=
  P a ∧ Between lo [span a] t.before

/-- What is read one after the other from a place on is as asked for, and the spans stand one behind
the other, before all tokens that are left. -/
def Many (span : α → Span) (P : α → Prop) (lo : Position) (as : List α) (t : TokenStream) : Prop :=
  (∀ a ∈ as, P a) ∧ Between lo (as.map span) t.here

theorem Many.nil (h : lo ≤ s.here) : Many span P lo [] s := ⟨nofun, h⟩

/-- One item and more behind it. -/
theorem Many.cons {as : List α} {mid : Position} (h : One span P lo a s) (hle : s.before ≤ mid)
    (k : Many span P mid as t) : Many span P lo (a :: as) t :=
  ⟨List.forall_mem_cons.mpr ⟨h.1, k.1⟩, (h.2.mono (le_refl _) hle).append k.2⟩

/-- A node whose parts stand between its ends. -/
theorem one_of_parts {whole : Span} {parts : List Span} (hspan : span a = whole)
    (hstart : S whole.start) (hlo : lo ≤ whole.start) (hhi : whole.stop ≤ t.before)
    (hparts : Between whole.start parts whole.stop)
    (hnode : Span.Placed S (span a) parts → P a) : One span P lo a t := by
  subst hspan
  exact ⟨hnode ⟨hstart, hparts.nests⟩, hlo, hparts.le, hhi⟩

/-- A node that is one token. -/
theorem one_of_token {token : Token} (h : s.Takes S token t) (hspan : span a = token.span)
    (hnode : Span.Placed S (span a) [] → P a) : One span P s.here a t := by
  have hempty : Between token.span.start [] token.span.stop := by
    rw [h.start, h.stop]
    exact h.le
  exact one_of_parts hspan h.starts (le_of_eq h.start.symm) (le_of_eq h.stop) hempty hnode

/-- A node from its first token up to the token read last. -/
theorem one_of_first {token : Token} {parts : List Span} (h : s.Takes S token t)
    {u : TokenStream} (hspan : span a = ⟨token.span.start, u.before⟩)
    (hparts : Between t.before parts u.before) (hnode : Span.Placed S (span a) parts → P a) :
    One span P s.here a u := by
  have hwhole : Between token.span.start parts u.before := by
    refine hparts.mono ?_ (le_refl _)
    rw [h.start]
    exact h.le
  exact one_of_parts hspan h.starts (le_of_eq h.start.symm) (le_refl _) hwhole hnode

/-- Items with commas between them. -/
theorem separated_reads {item : Parser α} {close : TokenKind}
    (hitem : ∀ s, s.Ordered S fin → Reads S fin item s (One span P s.here)) {n : Nat}
    (hs : s.Ordered S fin) : Reads S fin (separated item close n) s (Many span P s.here) := by
  induction n generalizing s with
  | zero =>
    rw [separated]
    refine .byKind ?_
    split
    · exact .pure hs (.nil (le_refl _))
    · refine (hitem s hs).bind fun a t ht ha => .pure ht ?_
      exact .cons ha ht.before_le (.nil (le_refl _))
  | succ n ih =>
    rw [separated]
    refine .byKind ?_
    split
    · exact .pure hs (.nil (le_refl _))
    · refine (hitem s hs).bind fun a t ht ha => ?_
      refine (eat_reads ht (by decide)).bind fun again u hu hle => ?_
      have hmore : t.before ≤ u.here := le_trans hle hu.before_le
      cases again with
      | false => exact .pure hu (.cons ha hmore (.nil (le_refl _)))
      | true =>
        refine (ih hu).bind fun as v hv has => .pure hv ?_
        exact .cons ha hmore has

end Nodes

end Parser

namespace Grammar

open TokenStream

variable {S : Position → Prop} {fin lo : Position} {s : TokenStream}

section Types

abbrev OneType (S : Position → Prop) : Position → TypeExpr → TokenStream → Prop :=
  One TypeExpr.span (TypeExpr.Nodes (Span.Placed S))

theorem primitiveType_reads (hs : s.Ordered S fin) :
    Reads S fin primitiveType s (OneType S s.here) := by
  refine (expect_reads hs (by decide)).bind fun token t ht htakes => ?_
  cases hname : PrimitiveType.ofName? token.value with
  | some name => exact .pure ht (one_of_token htakes rfl .primitive)
  | none => exact .fail rfl (Or.inl htakes.starts)

variable {inner : Parser TypeExpr}
  (hinner : ∀ s, s.Ordered S fin → Reads S fin inner s (OneType S s.here))

include hinner

theorem listType_reads (hs : s.Ordered S fin) :
    Reads S fin (listType inner) s (OneType S s.here) := by
  refine (expect_reads hs (by decide)).bind fun opening s₁ hs₁ hopening => ?_
  refine (hinner s₁ hs₁).bind fun element s₂ hs₂ helement => ?_
  refine (expect_reads hs₂ (by decide)).bind fun closing t ht hclosing => .stopped ht ?_
  obtain ⟨hnodes, hbetween⟩ := helement
  have hbehind : s₂.before ≤ t.before := le_trans hs₂.before_le hclosing.le
  exact one_of_first hopening rfl (hbetween.mono hs₁.before_le hbehind) fun h => .list h hnodes

theorem functionType_reads (hs : s.Ordered S fin) (m : Nat) :
    Reads S fin (functionType inner m) s (OneType S s.here) := by
  refine (expect_reads hs (by decide)).bind fun opening s₁ hs₁ hopening => ?_
  refine (separated_reads hinner hs₁).bind fun inputs s₂ hs₂ hinputs => ?_
  refine (expect_reads hs₂ (by decide)).bind fun closing s₃ hs₃ hclosing => ?_
  refine (expect_reads hs₃ (by decide)).bind fun arrow s₄ hs₄ harrow => ?_
  refine (hinner s₄ hs₄).bind fun output t ht houtput => .stopped ht ?_
  have hbehind : s₂.here ≤ s₄.here :=
    le_trans hclosing.le (le_trans hs₃.before_le (le_trans harrow.le hs₄.before_le))
  have hparts : Between s₁.before (inputs.map TypeExpr.span ++ [output.span]) t.before :=
    (hinputs.2.mono hs₁.before_le hbehind).append houtput.2
  exact one_of_first hopening rfl hparts fun h => .function h hinputs.1 houtput.1

end Types

theorem typeWithin_reads (g : Grammar) (n : Nat) (hs : s.Ordered S fin) :
    Reads S fin (g.typeWithin n) s (OneType S s.here) := by
  induction n generalizing s with
  | zero => exact unexpectedBecause_reads hs _
  | succ n ih =>
    rw [typeWithin]
    refine .byKind ?_
    split
    · exact unexpectedBecause_reads hs _
    · exact primitiveType_reads hs
    · exact listType_reads (fun s hs => ih hs) hs
    · exact functionType_reads (fun s hs => ih hs) hs n

section Expressions

abbrev OneExpr (S : Position → Prop) : Position → Expr → TokenStream → Prop :=
  One Expr.span (Expr.Nodes (Span.Placed S))

def PlacesExprs (S : Position → Prop) (fin : Position) (inner : Level → Parser Expr) : Prop :=
  ∀ level s, s.Ordered S fin → Reads S fin (inner level) s (OneExpr S s.here)

variable {inner : Level → Parser Expr} {m : Nat}

theorem primary_reads (hs : s.Ordered S fin)
    (hopens : standardOpening? s.current.kind = some .primary) :
    Reads S fin primary s (OneExpr S s.here) := by
  refine (advance_reads hs (ne_eof_of_opening hopens)).bind fun token t ht htakes => ?_
  obtain ⟨rfl, htakes⟩ := htakes
  cases hcurrent : s.current.kind with
  | number =>
    cases hread : Decimal.read? s.current.value with
    | some value => exact .pure ht (one_of_token htakes rfl .number)
    | none => exact .fail rfl (Or.inl htakes.starts)
  | text => exact .pure ht (one_of_token htakes rfl .text)
  | trueWord => exact .pure ht (one_of_token htakes rfl .boolean)
  | falseWord => exact .pure ht (one_of_token htakes rfl .boolean)
  | identifier => exact .pure ht (one_of_token htakes rfl .identifier)
  | _ => rw [hcurrent] at hopens; cases hopens

/-- An operator before its operand spans from the operator to where the operand stops. -/
theorem signed_reads (hinner : PlacesExprs S fin inner) (hs : s.Ordered S fin)
    (hkind : s.current.kind ≠ .eof) : Reads S fin (signed inner) s (OneExpr S s.here) := by
  refine (advance_reads hs hkind).bind fun token s₁ hs₁ htakes => ?_
  obtain ⟨_, htakes⟩ := htakes
  refine (hinner .unary s₁ hs₁).bind fun operand t ht hoperand => .pure ht ?_
  obtain ⟨hnodes, hstart, hordered, hstop⟩ := hoperand
  have hparts : Between token.span.start [operand.span] operand.span.stop := by
    refine ⟨?_, hordered, le_refl _⟩
    rw [htakes.start]
    exact le_trans htakes.le (le_trans hs₁.before_le hstart)
  exact one_of_parts rfl htakes.starts (le_of_eq htakes.start.symm) hstop hparts fun h =>
    .unary h hnodes

theorem group_reads (hinner : PlacesExprs S fin inner) (hs : s.Ordered S fin) :
    Reads S fin (group inner) s (OneExpr S s.here) := by
  refine (expect_reads hs (by decide)).bind fun opening s₁ hs₁ hopening => ?_
  refine (hinner .default s₁ hs₁).bind fun e s₂ hs₂ he => ?_
  refine (expect_reads hs₂ (by decide)).bind fun closing t ht hclosing => .pure ht ?_
  have hbefore : s.here ≤ s₁.here := le_trans hopening.le hs₁.before_le
  have hbehind : s₂.before ≤ t.before := le_trans hs₂.before_le hclosing.le
  exact ⟨he.1, he.2.mono hbefore hbehind⟩

theorem list_reads (hinner : PlacesExprs S fin inner) (hs : s.Ordered S fin) :
    Reads S fin (Grammar.list inner m) s (OneExpr S s.here) := by
  refine (expect_reads hs (by decide)).bind fun opening s₁ hs₁ hopening => ?_
  refine (separated_reads (hinner .default) hs₁).bind fun elements s₂ hs₂ helements => ?_
  refine (expect_reads hs₂ (by decide)).bind fun closing t ht hclosing => .stopped ht ?_
  have hparts : Between s₁.before (elements.map Expr.span) t.before :=
    helements.2.mono hs₁.before_le hclosing.le
  exact one_of_first hopening rfl hparts fun h => .list h helements.1

theorem conditional_reads (hinner : PlacesExprs S fin inner) (hs : s.Ordered S fin) :
    Reads S fin (Grammar.conditional inner) s (OneExpr S s.here) := by
  refine (expect_reads hs (by decide)).bind fun opening s₁ hs₁ hopening => ?_
  refine (hinner .default s₁ hs₁).bind fun condition s₂ hs₂ hcondition => ?_
  refine (expect_reads hs₂ (by decide)).bind fun _ s₃ hs₃ hthen => ?_
  refine (hinner .default s₃ hs₃).bind fun whenTrue s₄ hs₄ htrue => ?_
  refine (expect_reads hs₄ (by decide)).bind fun _ s₅ hs₅ helse => ?_
  refine (hinner .default s₅ hs₅).bind fun whenFalse t ht hfalse => .stopped ht ?_
  have hbefore : s₂.before ≤ s₃.here :=
    le_trans hs₂.before_le (le_trans hthen.le hs₃.before_le)
  have hbetween : s₄.before ≤ s₅.here :=
    le_trans hs₄.before_le (le_trans helse.le hs₅.before_le)
  have hparts : Between s₁.before ([condition.span] ++ ([whenTrue.span] ++ [whenFalse.span]))
      t.before :=
    (hcondition.2.mono hs₁.before_le hbefore).append
      ((htrue.2.mono (le_refl _) hbetween).append hfalse.2)
  exact one_of_first hopening rfl hparts fun h => .conditional h hcondition.1 htrue.1 hfalse.1

theorem opened_reads (hinner : PlacesExprs S fin inner) (hs : s.Ordered S fin) {form : Opening}
    (hopens : standardOpening? s.current.kind = some form) :
    Reads S fin (opened inner m form) s (OneExpr S s.here) := by
  cases form with
  | primary => exact primary_reads hs hopens
  | signed => exact signed_reads hinner hs (ne_eof_of_opening hopens)
  | group => exact group_reads hinner hs
  | list => exact list_reads hinner hs
  | conditional => exact conditional_reads hinner hs

variable {left : Expr}

/-- An operand and a second one behind it, with a token between them. -/
theorem one_between {op : BinaryOp} {right : Expr} {s₁ t : TokenStream}
    (hleft : OneExpr S lo left s) (hle : s.before ≤ s₁.here) (hright : OneExpr S s₁.here right t) :
    OneExpr S lo (.between op left right) t := by
  obtain ⟨hnodes, hstart, hordered, hstop⟩ := hleft
  obtain ⟨hnodes', hstart', hordered', hstop'⟩ := hright
  have hparts : Between left.span.start [left.span, right.span] right.span.stop :=
    ⟨le_refl _, hordered, le_trans hstop (le_trans hle hstart'), hordered', le_refl _⟩
  obtain ⟨_, hroot⟩ := hnodes.root
  exact one_of_parts rfl hroot.start hstart hstop' hparts fun h =>
    .binary h hnodes hnodes'

/-- What joins an operand to what follows reads a wider expression from the same place on. -/
theorem joined_reads (hinner : PlacesExprs S fin inner) (hs : s.Ordered S fin)
    (hkind : s.current.kind ≠ .eof) (hleft : OneExpr S lo left s) (level : Level) (form : Joining) :
    Reads S fin (joined inner m left level form) s (OneExpr S lo) := by
  cases form with
  | binary =>
    refine (advance_reads hs hkind).bind fun token s₁ hs₁ htakes => ?_
    obtain ⟨_, htakes⟩ := htakes
    cases hop : BinaryOp.ofKind? token.kind with
    | none => exact .fail rfl (Or.inl htakes.starts)
    | some op =>
      refine (hinner level s₁ hs₁).bind fun right t ht hright => .pure ht ?_
      exact one_between hleft (le_trans hs.before_le (le_trans htakes.le hs₁.before_le)) hright
  | power =>
    refine (expect_reads hs (by decide)).bind fun token s₁ hs₁ htakes => ?_
    refine (hinner .multiplicative s₁ hs₁).bind fun right t ht hright => .pure ht ?_
    exact one_between hleft (le_trans hs.before_le (le_trans htakes.le hs₁.before_le)) hright
  | call =>
    cases left with
    | identifier span callee =>
      refine (expect_reads hs (by decide)).bind fun opening s₁ hs₁ hopening => ?_
      refine (separated_reads (hinner .default) hs₁).bind fun arguments s₂ hs₂ harguments => ?_
      refine (expect_reads hs₂ (by decide)).bind fun closing t ht hclosing => .stopped ht ?_
      obtain ⟨hnodes, hstart, hordered, hstop⟩ := hleft
      have hbefore : span.start ≤ s₁.here := le_trans hordered
        (le_trans hstop (le_trans hs.before_le (le_trans hopening.le hs₁.before_le)))
      have hparts : Between span.start (arguments.map Expr.span) t.before :=
        harguments.2.mono hbefore hclosing.le
      obtain ⟨_, hroot⟩ := hnodes.root
      exact one_of_parts rfl hroot.start hstart (le_refl _) hparts fun h =>
        .call h harguments.1
    | _ => exact unexpectedBecause_reads hs _

theorem extended_reads {g : Grammar} (hg : g.HasExpressions) (hinner : PlacesExprs S fin inner)
    {level : Level} {n : Nat} (hs : s.Ordered S fin) (hleft : OneExpr S lo left s) :
    Reads S fin (g.extended inner level n left) s (OneExpr S lo) := by
  induction n generalizing s left with
  | zero => exact .pure hs hleft
  | succ n ih =>
    rw [extended, hg.joining]
    refine .byKind ?_
    cases hjoins : standardJoining? s.current.kind with
    | none => exact .pure hs hleft
    | some entry =>
      have hkind : s.current.kind ≠ .eof := ne_eof_of_joining hjoins
      obtain ⟨tightness, form⟩ := entry
      dsimp only
      split
      · refine (joined_reads hinner hs hkind hleft _ _).bind fun wider t ht hwider => ?_
        exact ih ht hwider
      · exact .pure hs hleft

/-- Reading an expression places the spans of its nodes. -/
theorem exprWithin_reads {g : Grammar} (hg : g.HasExpressions) (n : Nat) :
    PlacesExprs S fin (g.exprWithin n) := by
  induction n with
  | zero => exact fun _ s hs => unexpected_reads hs
  | succ n ih =>
    intro level s hs
    rw [exprWithin, hg.opening]
    refine .byKind ?_
    cases hopens : standardOpening? s.current.kind with
    | none => exact unexpected_reads hs
    | some form =>
      refine (opened_reads ih hs hopens).bind fun left t ht hleft => ?_
      exact extended_reads hg ih ht hleft

end Expressions

end Grammar

end Piecewise
