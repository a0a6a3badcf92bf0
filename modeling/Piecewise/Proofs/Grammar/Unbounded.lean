import Piecewise.Grammar.Unbounded
import Piecewise.Proofs.Grammar.Walk

/-!
# Reading always ends

A walk without bounds marches in step with the bounded reader of the same form, from every token
with at most so many tokens before the last one. Every form takes a token before it reads a form
inside, and no table has a form for the end of the source, so the bound is never in the way and no
walk runs for ever or off the tokens.
-/

namespace Piecewise

namespace Grammar

/-- The end of the source introduces no form. -/
structure StopsAtEnd (g : Grammar) : Prop where
  opening : g.opening? .eof = none
  joining : g.joining? .eof = none
  typeOpening : g.typeOpening? .eof = none

theorem standard_stopsAtEnd : standard.StopsAtEnd := ⟨rfl, rfl, rfl⟩

namespace StopsAtEnd

variable {g : Grammar} {kind : TokenKind}

theorem ne_eof_of_opening (hg : g.StopsAtEnd) {form : Opening}
    (h : g.opening? kind = some form) : kind ≠ .eof := by
  rintro rfl
  exact nomatch hg.opening.symm.trans h

theorem ne_eof_of_joining (hg : g.StopsAtEnd) {entry : Level × Joining}
    (h : g.joining? kind = some entry) : kind ≠ .eof := by
  rintro rfl
  exact nomatch hg.joining.symm.trans h

end StopsAtEnd

end Grammar

namespace Walk

variable {s : Standing} {n : Nat}

/-- Items with commas between them are read in step if every item is. At the last token only the
walk goes on, and no item is read there. -/
theorem inStep_separated {α : Type} {item : Walk α} {read : Parser α} {close : TokenKind}
    {items : Walk (List α)}
    (hround : items = do
      if (← kind) = close then return []
      else
        let first ← item
        if ← eat .comma then return first :: (← items)
        else return [first])
    {bound : Nat} (hitem : ∀ t : Standing, t.Within bound → item.InStep 1 read t)
    (hn : n ≤ bound) (hs : s.Within n) :
    items.InStep 0 (Parser.separated read close n) s := by
  induction n generalizing s with
  | zero =>
    rw [hround]
    refine inStep_kind_bind hs ?_
    by_cases hclose : s.token.kind = close
    · rw [if_pos hclose, if_pos hclose]
      exact inStep_pure hs []
    · rw [if_neg hclose, if_neg hclose]
      exact (hitem s (hs.mono hn)).bind_at_end hs
  | succ n ih =>
    rw [hround]
    refine inStep_kind_bind hs ?_
    by_cases hclose : s.token.kind = close
    · rw [if_pos hclose, if_pos hclose]
      exact inStep_pure hs []
    · rw [if_neg hclose, if_neg hclose]
      refine ((hitem s (hs.mono hn)).bind hs fun first t ht => ?_).loose
      refine (inStep_eat ht (by decide)).bind ht fun again u hu => ?_
      cases again with
      | false => exact inStep_pure hu [first]
      | true =>
        refine (ih (Nat.le_of_succ_le hn) hu).bind hu fun rest v hv => ?_
        exact inStep_pure hv (first :: rest)

end Walk

open Piecewise.Walk

namespace Grammar

variable {g : Grammar} {s : Standing} {n : Nat}

section Expressions

/-- Expressions inside a form are read in step from every token near enough to the last one. -/
def InnerExprs (g : Grammar) (bound : Nat) (inner : Level → Parser Expr) : Prop :=
  ∀ (t : Standing) (level : Level), t.Within bound → (g.walkExpr level).InStep 1 (inner level) t

variable {inner : Level → Parser Expr} {level : Level} {left : Expr}

theorem inStep_exprs (hinner : InnerExprs g n inner) {close : TokenKind} (hs : s.Within n) :
    (g.walkExprs close).InStep 0 (Parser.separated (inner .default) close n) s :=
  inStep_separated (walkExprs.eq_1 g close) (fun t ht => hinner t .default ht) (Nat.le_refl n) hs

theorem inStep_primary (hs : s.Within (n + 1)) (hkind : s.token.kind ≠ .eof) :
    walkPrimary.InStep 1 Grammar.primary s := by
  refine (inStep_advance hs hkind).bind hs fun token t ht => ?_
  obtain ⟨kind, value, span⟩ := token
  cases kind with
  | number =>
    cases Decimal.read? value with
    | none => exact inStep_throw ht _
    | some read => exact inStep_pure ht _
  | text => exact inStep_pure ht _
  | trueWord => exact inStep_pure ht _
  | falseWord => exact inStep_pure ht _
  | identifier => exact inStep_pure ht _
  | _ => exact inStep_throw ht _

theorem inStep_signed (hinner : InnerExprs g n inner) (hs : s.Within (n + 1))
    (hkind : s.token.kind ≠ .eof) : g.walkSigned.InStep 1 (Grammar.signed inner) s := by
  rw [walkSigned]
  refine (inStep_advance hs hkind).bind hs fun token t ht => ?_
  refine (hinner t .unary ht).loose.bind ht fun operand u hu => ?_
  exact inStep_pure hu _

theorem inStep_group (hinner : InnerExprs g n inner) (hs : s.Within (n + 1)) :
    g.walkGroup.InStep 1 (Grammar.group inner) s := by
  rw [walkGroup]
  refine (inStep_expect hs (by decide)).bind hs fun _ t ht => ?_
  refine (hinner t .default ht).loose.bind ht fun e u hu => ?_
  refine (inStep_expect hu (by decide)).loose.bind hu fun _ v hv => ?_
  exact inStep_pure hv e

theorem inStep_list (hinner : InnerExprs g n inner) (hs : s.Within (n + 1)) :
    g.walkList.InStep 1 (Grammar.list inner n) s := by
  rw [walkList]
  refine (inStep_expect hs (by decide)).bind hs fun _ t ht => ?_
  refine (inStep_exprs hinner ht).bind ht fun elements u hu => ?_
  refine (inStep_expect hu (by decide)).loose.bind hu fun _ v hv => ?_
  exact inStep_stopped_pure hv

theorem inStep_conditional (hinner : InnerExprs g n inner) (hs : s.Within (n + 1)) :
    g.walkConditional.InStep 1 (Grammar.conditional inner) s := by
  rw [walkConditional]
  refine (inStep_expect hs (by decide)).bind hs fun _ t ht => ?_
  refine (hinner t .default ht).loose.bind ht fun condition u hu => ?_
  refine (inStep_expect hu (by decide)).loose.bind hu fun _ v hv => ?_
  refine (hinner v .default hv).loose.bind hv fun whenTrue w hw => ?_
  refine (inStep_expect hw (by decide)).loose.bind hw fun _ x hx => ?_
  refine (hinner x .default hx).loose.bind hx fun whenFalse y hy => ?_
  exact inStep_stopped_pure hy

theorem inStep_opened (hinner : InnerExprs g n inner) (hs : s.Within (n + 1))
    (hkind : s.token.kind ≠ .eof) (form : Opening) :
    (g.walkOpened form).InStep 1 (Grammar.opened inner n form) s := by
  rw [walkOpened.eq_def]
  cases form with
  | primary => exact inStep_primary hs hkind
  | signed => exact inStep_signed hinner hs hkind
  | group => exact inStep_group hinner hs
  | list => exact inStep_list hinner hs
  | conditional => exact inStep_conditional hinner hs

theorem inStep_binary (hinner : InnerExprs g n inner) (hs : s.Within (n + 1))
    (hkind : s.token.kind ≠ .eof) :
    (g.walkBinary left level).InStep 1 (Grammar.binary inner left level) s := by
  rw [walkBinary]
  refine (inStep_advance hs hkind).bind hs fun token t ht => ?_
  cases BinaryOp.ofKind? token.kind with
  | none => exact inStep_throw ht _
  | some op =>
    refine (hinner t level ht).loose.bind ht fun right u hu => ?_
    exact inStep_pure hu _

theorem inStep_power (hinner : InnerExprs g n inner) (hs : s.Within (n + 1)) :
    (g.walkPower left).InStep 1 (Grammar.power inner left) s := by
  rw [walkPower]
  refine (inStep_expect hs (by decide)).bind hs fun _ t ht => ?_
  refine (hinner t .multiplicative ht).loose.bind ht fun right u hu => ?_
  exact inStep_pure hu _

theorem inStep_call (hinner : InnerExprs g n inner) (hs : s.Within (n + 1)) :
    (g.walkCall left).InStep 1 (Grammar.call inner n left) s := by
  rw [walkCall.eq_def]
  cases left with
  | identifier span callee =>
    refine (inStep_expect hs (by decide)).bind hs fun _ t ht => ?_
    refine (inStep_exprs hinner ht).bind ht fun arguments u hu => ?_
    refine (inStep_expect hu (by decide)).loose.bind hu fun _ v hv => ?_
    exact inStep_stopped_pure hv
  | _ => exact inStep_unexpectedBecause hs

theorem inStep_joined (hinner : InnerExprs g n inner) (hs : s.Within (n + 1))
    (hkind : s.token.kind ≠ .eof) (form : Joining) :
    (g.walkJoined left level form).InStep 1 (Grammar.joined inner n left level form) s := by
  rw [walkJoined.eq_def]
  cases form with
  | binary => exact inStep_binary hinner hs hkind
  | power => exact inStep_power hinner hs
  | call => exact inStep_call hinner hs

/-- Joining goes on in step: every form that joins takes a token. -/
theorem inStep_extended (hg : g.StopsAtEnd) {bound : Nat} (hinner : InnerExprs g bound inner)
    (hn : n ≤ bound) (hs : s.Within n) :
    (g.walkExtended level left).InStep 0 (g.extended inner level n left) s := by
  induction n generalizing s left with
  | zero =>
    rw [walkExtended]
    refine inStep_kind_then hs ?_
    rw [hs.token_kind, hg.joining]
    exact inStep_pure hs left
  | succ n ih =>
    rw [walkExtended, Grammar.extended]
    refine inStep_kind_bind hs ?_
    cases hjoins : g.joining? s.token.kind with
    | none => exact inStep_pure hs left
    | some entry =>
      obtain ⟨tightness, form⟩ := entry
      have hkind : s.token.kind ≠ .eof := hg.ne_eof_of_joining hjoins
      by_cases htight : level < tightness
      · simp only [htight, if_true]
        have hinner' : InnerExprs g n inner := fun t level ht =>
          hinner t level (ht.mono (Nat.le_of_succ_le hn))
        refine ((inStep_joined hinner' hs hkind form).bind hs fun wider t ht => ?_).loose
        exact ih (Nat.le_of_succ_le hn) ht
      · simp only [htight, if_false]
        exact inStep_pure hs left

/-- Expressions are read in step, and take a token where they are read. -/
theorem inStep_expr (hg : g.StopsAtEnd) (bound : Nat) :
    InnerExprs g bound (g.exprWithin bound) := by
  induction bound with
  | zero =>
    intro s level hs
    rw [walkExpr]
    refine inStep_kind_then hs ?_
    rw [hs.token_kind, hg.opening]
    exact inStep_unexpected hs
  | succ n ih =>
    intro s level hs
    rw [walkExpr, Grammar.exprWithin]
    refine inStep_kind_bind hs ?_
    cases hopens : g.opening? s.token.kind with
    | none => exact inStep_unexpected hs
    | some form =>
      have hkind : s.token.kind ≠ .eof := hg.ne_eof_of_opening hopens
      refine (inStep_opened ih hs hkind form).bind hs fun left t ht => ?_
      exact inStep_extended hg ih (Nat.le_refl n) ht

end Expressions

section Types

/-- Types inside a type are read in step from every token near enough to the last one. -/
def InnerTypes (g : Grammar) (bound : Nat) (inner : Parser TypeExpr) : Prop :=
  ∀ t : Standing, t.Within bound → g.walkType.InStep 1 inner t

variable {inner : Parser TypeExpr}

theorem inStep_primitiveType (hs : s.Within (n + 1)) :
    walkPrimitiveType.InStep 1 Grammar.primitiveType s := by
  refine (inStep_expect hs (by decide)).bind hs fun token t ht => ?_
  cases PrimitiveType.ofName? token.value with
  | none => exact inStep_throw ht _
  | some name => exact inStep_pure ht _

theorem inStep_listType (hinner : InnerTypes g n inner) (hs : s.Within (n + 1)) :
    g.walkListType.InStep 1 (Grammar.listType inner) s := by
  rw [walkListType]
  refine (inStep_expect hs (by decide)).bind hs fun _ t ht => ?_
  refine (hinner t ht).loose.bind ht fun element u hu => ?_
  refine (inStep_expect hu (by decide)).loose.bind hu fun _ v hv => ?_
  exact inStep_stopped_pure hv

theorem inStep_functionType (hinner : InnerTypes g n inner) (hs : s.Within (n + 1)) :
    g.walkFunctionType.InStep 1 (Grammar.functionType inner n) s := by
  rw [walkFunctionType]
  refine (inStep_expect hs (by decide)).bind hs fun _ t ht => ?_
  have hinputs : g.walkTypes.InStep 0 (Parser.separated inner .closeParen n) t :=
    inStep_separated (walkTypes.eq_1 g) hinner (Nat.le_refl n) ht
  refine hinputs.bind ht fun inputs u hu => ?_
  refine (inStep_expect hu (by decide)).loose.bind hu fun _ v hv => ?_
  refine (inStep_expect hv (by decide)).loose.bind hv fun _ w hw => ?_
  refine (hinner w hw).loose.bind hw fun output x hx => ?_
  exact inStep_stopped_pure hx

/-- Types are read in step, and take a token where they are read. -/
theorem inStep_type (hg : g.StopsAtEnd) (bound : Nat) :
    InnerTypes g bound (g.typeWithin bound) := by
  induction bound with
  | zero =>
    intro s hs
    rw [walkType]
    refine inStep_kind_then hs ?_
    rw [hs.token_kind, hg.typeOpening]
    exact inStep_unexpectedBecause hs
  | succ n ih =>
    intro s hs
    rw [walkType, Grammar.typeWithin]
    refine inStep_kind_bind hs ?_
    cases g.typeOpening? s.token.kind with
    | none => exact inStep_unexpectedBecause hs
    | some form =>
      cases form with
      | name => exact inStep_primitiveType hs
      | list => exact inStep_listType ih hs
      | function => exact inStep_functionType ih hs

end Types

section Programs

variable {bound : Nat}

theorem inStep_parameter (hg : g.StopsAtEnd) (hs : s.Within bound) :
    g.walkParameter.InStep 1 (g.parameter bound) s := by
  refine (inStep_expect hs (by decide)).bind (hs.mono (Nat.le_succ _)) fun token t ht => ?_
  refine (inStep_expect ht (by decide)).loose.bind ht fun _ u hu => ?_
  refine (inStep_type hg bound u hu).loose.bind hu fun type v hv => ?_
  exact inStep_stopped_pure hv

theorem inStep_branch (hg : g.StopsAtEnd) (hs : s.Within bound) :
    g.walkBranch.InStep 1 (g.branch bound) s := by
  have hexpr := inStep_expr hg bound
  refine (hexpr s .default hs).bind (hs.mono (Nat.le_succ _)) fun guard t ht => ?_
  refine (inStep_expect ht (by decide)).loose.bind ht fun _ u hu => ?_
  refine (hexpr u .default hu).loose.bind hu fun action v hv => ?_
  refine (inStep_expect hv (by decide)).loose.bind hv fun _ w hw => ?_
  exact inStep_pure hw _

theorem inStep_branches (hg : g.StopsAtEnd) (hn : n ≤ bound) (hs : s.Within n) :
    g.walkBranches.InStep 0 (g.branches bound n) s := by
  induction n generalizing s with
  | zero =>
    rw [walkBranches]
    refine inStep_kind_then hs ?_
    rw [hs.token_kind]
    exact inStep_unexpectedBecause hs
  | succ n ih =>
    rw [walkBranches, Grammar.branches]
    refine inStep_kind_bind hs ?_
    have hmore : (do return (← g.walkBranch) :: (← g.walkBranches) : Walk (List Branch)).InStep 0
        (do return (← g.branch bound) :: (← g.branches bound n)) s := by
      have hbranch := inStep_branch hg (hs.mono hn)
      refine (hbranch.bind hs fun first t ht => ?_).loose
      refine (ih (Nat.le_of_succ_le hn) ht).bind ht fun rest u hu => ?_
      exact inStep_pure hu (first :: rest)
    cases s.token.kind with
    | elseWord => exact inStep_pure hs []
    | closeCurly => exact inStep_unexpectedBecause hs
    | eof => exact inStep_unexpectedBecause hs
    | _ => exact hmore

theorem inStep_piecewise (hg : g.StopsAtEnd) (hs : s.Within bound) :
    g.walkPiecewise.InStep 0 (g.piecewise bound) s := by
  refine (inStep_expect hs (by decide)).loose.bind hs fun _ t ht => ?_
  refine (inStep_branches hg (Nat.le_refl bound) ht).bind ht fun guarded u hu => ?_
  refine (inStep_expect hu (by decide)).loose.bind hu fun _ v hv => ?_
  refine (inStep_expect hv (by decide)).loose.bind hv fun _ w hw => ?_
  refine (inStep_expr hg bound w .default hw).loose.bind hw fun otherwise x hx => ?_
  refine (inStep_eat hx (by decide)).bind hx fun _ y hy => ?_
  refine (inStep_expect hy (by decide)).loose.bind hy fun _ z hz => ?_
  exact inStep_stopped_pure hz

theorem inStep_body (hg : g.StopsAtEnd) (hs : s.Within bound) :
    g.walkBody.InStep 0 (g.body bound) s := by
  refine inStep_kind_bind hs ?_
  cases hkind : s.token.kind with
  | assignment =>
    have htoken : s.token.kind ≠ .eof := by
      rw [hkind]
      decide
    refine (inStep_advance hs htoken).loose.bind hs fun _ t ht => ?_
    refine (inStep_expr hg bound t .default ht).loose.bind ht fun value u hu => ?_
    refine (inStep_expect hu (by decide)).loose.bind hu fun _ v hv => ?_
    exact inStep_pure hv _
  | openCurly =>
    refine (inStep_piecewise hg hs).bind hs fun body t ht => ?_
    refine (inStep_eat ht (by decide)).bind ht fun _ u hu => ?_
    exact inStep_pure hu body
  | _ => exact inStep_unexpectedBecause hs

/-- Declarations are read in step, and take a token where they are read. -/
theorem inStep_declaration (hg : g.StopsAtEnd) (hs : s.Within bound) :
    g.walkDeclaration.InStep 1 (g.declarationWithin bound) s := by
  refine (inStep_expect hs (by decide)).bind (hs.mono (Nat.le_succ _)) fun _ t ht => ?_
  refine (inStep_expectOr ht (by decide)).loose.bind ht fun name u hu => ?_
  refine (inStep_expect hu (by decide)).loose.bind hu fun _ v hv => ?_
  have hparameters : g.walkParameters.InStep 0
      (Parser.separated (g.parameter bound) .closeParen bound) v :=
    inStep_separated (walkParameters.eq_1 g) (fun _ => inStep_parameter hg) (Nat.le_refl bound) hv
  refine hparameters.bind hv fun parameters w hw => ?_
  refine (inStep_expect hw (by decide)).loose.bind hw fun _ x hx => ?_
  refine (inStep_expect hx (by decide)).loose.bind hx fun _ y hy => ?_
  refine (inStep_type hg bound y hy).loose.bind hy fun returns z hz => ?_
  refine (inStep_body hg hz).bind hz fun body s₁ hs₁ => ?_
  exact inStep_stopped_pure hs₁

theorem inStep_declarations (hg : g.StopsAtEnd) (hn : n ≤ bound) (hs : s.Within n) :
    g.walkDeclarations.InStep 0 (g.declarations bound n) s := by
  induction n generalizing s with
  | zero =>
    rw [walkDeclarations]
    refine inStep_kind_then hs ?_
    rw [if_pos hs.token_kind]
    exact inStep_pure hs []
  | succ n ih =>
    rw [walkDeclarations, Grammar.declarations]
    refine inStep_kind_bind hs ?_
    by_cases hend : s.token.kind = .eof
    · rw [if_pos hend, if_pos hend]
      exact inStep_pure hs []
    · rw [if_neg hend, if_neg hend]
      have hfirst := inStep_declaration hg (hs.mono hn)
      refine (hfirst.bind hs fun first t ht => ?_).loose
      refine (ih (Nat.le_of_succ_le hn) ht).bind ht fun rest u hu => ?_
      exact inStep_pure hu (first :: rest)

theorem inStep_program (hg : g.StopsAtEnd) (hs : s.Within bound) :
    g.walkProgram.InStep 0 g.program s := by
  refine (inStep_position hs).bind hs fun start t ht => ?_
  refine inStep_remaining ht fun n hn => ?_
  refine (inStep_declarations hg (Nat.le_refl n) hn).bind hn fun declarations u hu => ?_
  refine (inStep_position hu).bind hu fun stop v hv => ?_
  exact inStep_pure hv _

end Programs

/-- Reading always ends. From every token of a list, whether or not ends of the source are missing
or misplaced, every walk that reads an expression, a type or a declaration answers, as the bounded
reader does, and stays on the tokens; it takes tokens one after the other, at least one where it
succeeds and never an end of the source. Reading a program answers as well, and takes no token
twice. -/
theorem reading_ends (file : String) (tokens : List Token) :
    (∀ (place : Nat) (taken : List Nat), place < (ClosedTokens.of file tokens).all.length →
      (∀ level, (standard.walkExpr level).InStep 1 (standard.expr level)
        ⟨.of file tokens, place, taken⟩) ∧
      standard.walkType.InStep 1 standard.type ⟨.of file tokens, place, taken⟩ ∧
      standard.walkDeclaration.InStep 1 standard.declaration
        ⟨.of file tokens, place, taken⟩) ∧
    ∃ n, n < (ClosedTokens.of file tokens).all.length ∧
      standard.walkProgram ⟨.of file tokens, 0, []⟩ =
        some (Program.ofTokens file tokens, ⟨.of file tokens, n, List.range n⟩) := by
  have hg := standard_stopsAtEnd
  constructor
  · intro place taken hplace
    have hs : (⟨.of file tokens, place, taken⟩ : Standing).Within _ := .of_lt hplace
    refine ⟨fun level => ?_, ?_, ?_⟩
    · exact inStep_remaining hs fun n hn => inStep_expr hg n _ level hn
    · exact inStep_remaining hs fun n hn => inStep_type hg n _ hn
    · exact inStep_remaining hs fun n hn => inStep_declaration hg hn
  · have hstart : (0 : Nat) < (ClosedTokens.of file tokens).all.length := by
      rw [ClosedTokens.length_all]
      exact Nat.succ_pos _
    have hs : (⟨.of file tokens, 0, []⟩ : Standing).Within _ := .of_lt hstart
    obtain ⟨answer, n, hstrides, -⟩ := inStep_program hg hs
    have hanswer : Program.ofTokens file tokens = answer := by
      unfold Program.ofTokens
      rw [← Standing.start_stream, hstrides.parses]
      cases answer with
      | ok program => rfl
      | error d => rfl
    have hafter : (⟨.of file tokens, 0, []⟩ : Standing).after n =
        ⟨.of file tokens, n, List.range n⟩ := by
      simp [Standing.after, List.range_eq_range']
    have hinside := hstrides.inside
    have hanswers := hstrides.answers
    rw [hafter] at hinside hanswers
    rw [hanswer]
    exact ⟨n, hinside, hanswers⟩

/-- Tokens with an end of the source between them and none behind them. -/
def interrupted : List Token :=
  [.plain .notWord "not", .plain .trueWord "true", .plain .eof "EOF", .plain .trueWord "true"]

/-- An expression before an early end of the source is read up to there, and nothing else. -/
theorem reading_ends_early :
    1 < (ClosedTokens.of "main" interrupted).all.length ∧
      standard.walkExpr .default ⟨.of "main" interrupted, 1, [0]⟩ =
        some (.ok (.boolean default true), ⟨.of "main" interrupted, 2, [0, 1]⟩) := by
  have hplace : 1 < (ClosedTokens.of "main" interrupted).all.length := by decide
  refine ⟨hplace, ?_⟩
  obtain ⟨answer, n, hstrides, -⟩ := ((reading_ends "main" interrupted).1 1 [0] hplace).1 .default
  have hparses := hstrides.parses
  have hrun : standard.expr .default
      (⟨.of "main" interrupted, 1, [0]⟩ : Standing).stream =
        .ok (.boolean default true) (⟨.of "main" interrupted, 2, [0, 1]⟩ : Standing).stream := rfl
  rw [hrun] at hparses
  cases answer with
  | error d => cases hparses
  | ok e =>
    injection hparses with hvalue hstream
    have hahead := congrArg (fun stream => stream.ahead.length) hstream
    have htaken : (interrupted.drop 2).length = (interrupted.drop (1 + n)).length := hahead
    have hn : n = 1 := by
      rw [List.length_drop, List.length_drop] at htaken
      have hlength : interrupted.length = 4 := rfl
      omega
    rw [hstrides.answers, hn, ← hvalue]
    rfl

end Grammar

end Piecewise
