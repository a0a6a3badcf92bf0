import Piecewise.Decimal.Reading
import Piecewise.Expr.Basic
import Piecewise.Proofs.Grammar.Levels
import Piecewise.Proofs.Grammar.Separated

/-!
# Texts of expressions

The token texts that an expression may be written as, with any parentheses beyond those that its
operators need. An operand without parentheses of its own keeps to the levels of the operators, and
a conditional without parentheses goes on as far as it can, so it stands only where nothing is
joined to it. Spans play no part: an expression has the texts of every expression that differs from
it in spans only.
-/

namespace Piecewise

namespace Expr

/-- The operator of an expression that is an operator between two operands. -/
def operator? : Expr → Option BinaryOp
  | binary _ op _ _ => some op
  | _ => none

mutual

/-- The expression with every span forgotten. -/
def bare : Expr → Expr
  | boolean _ value => boolean default value
  | number _ value => number default value
  | text _ value => text default value
  | identifier _ name => identifier default name
  | call _ callee arguments => call default callee (bareAll arguments)
  | unary _ op operand => unary default op operand.bare
  | binary _ op left right => binary default op left.bare right.bare
  | conditional _ condition whenTrue whenFalse =>
    conditional default condition.bare whenTrue.bare whenFalse.bare
  | list _ elements => list default (bareAll elements)

def bareAll : List Expr → List Expr
  | [] => []
  | e :: rest => e.bare :: bareAll rest

end

/-- How the text of an expression ends: with a parenthesis that groups all of it, with a conditional
that goes on as far as it can, or with neither. -/
inductive Edge
  | grouped
  | dangling
  | closed
  deriving DecidableEq

/-- The end of a text that ends with another one and is not grouped. -/
def Edge.outside : Edge → Edge
  | .dangling => .dangling
  | _ => .closed

end Expr

namespace Expr

/-- An expression with one of its texts. -/
structure Piece where
  edge : Edge
  expr : Expr
  text : List Token

/-- The texts of an expression. Any expression may stand in parentheses, and so may the name of a
call. Where no operand is a conditional without parentheses, no operand is dangling. -/
inductive Written : Edge → Expr → List Token → Prop
  | boolean {span : Span} {value : Bool} {token : Token}
      (h : token.kind = if value then .trueWord else .falseWord) :
      Written .closed (.boolean span value) [token]
  | number {span : Span} {value : Float} {token : Token} (h : token.kind = .number)
      (read : Decimal.read? token.value = some value) :
      Written .closed (.number span value) [token]
  | text {span : Span} {token : Token} (h : token.kind = .text) :
      Written .closed (.text span token.value) [token]
  | identifier {span : Span} {token : Token} (h : token.kind = .identifier) :
      Written .closed (.identifier span token.value) [token]
  | group {edge : Edge} {e : Expr} {inside : List Token} {first last : Token}
      (hfirst : first.kind = .openParen) (hlast : last.kind = .closeParen)
      (h : Written edge e inside) : Written .grouped e (first :: (inside ++ [last]))
  | list {span : Span} {elements : List Piece} {inside : List Token} {first last : Token}
      (hfirst : first.kind = .openBracket) (hlast : last.kind = .closeBracket)
      (h : ∀ e ∈ elements, Written e.edge e.expr e.text)
      (listed : Listed Piece.text elements inside) :
      Written .closed (.list span (elements.map Piece.expr)) (first :: (inside ++ [last]))
  | call {edge : Edge} {span nameSpan : Span} {callee : String} {arguments : List Piece}
      {name inside : List Token} {first last : Token}
      (hname : Written edge (.identifier nameSpan callee) name)
      (hfirst : first.kind = .openParen) (hlast : last.kind = .closeParen)
      (h : ∀ e ∈ arguments, Written e.edge e.expr e.text)
      (listed : Listed Piece.text arguments inside) :
      Written .closed (.call span callee (arguments.map Piece.expr))
        (name ++ first :: (inside ++ [last]))
  | unary {edge : Edge} {span : Span} {op : UnaryOp} {operand : Expr} {behind : List Token}
      {sign : Token} (hsign : sign.kind = op.kind) (h : Written edge operand behind)
      (fits : edge = .grouped ∨ operand.operator? = none) :
      Written edge.outside (.unary span op operand) (sign :: behind)
  | binary {leftEdge rightEdge : Edge} {span : Span} {op : BinaryOp} {left right : Expr}
      {before behind : List Token} {sign : Token}
      (hsign : sign.kind = op.kind) (hleft : Written leftEdge left before)
      (hright : Written rightEdge right behind) (ends : leftEdge ≠ .dangling)
      (leftFits : leftEdge = .grouped ∨ ∀ inner ∈ left.operator?, op.LeftFits inner)
      (rightFits : rightEdge = .grouped ∨ ∀ inner ∈ right.operator?, op.RightFits inner) :
      Written rightEdge.outside (.binary span op left right) (before ++ sign :: behind)
  | conditional {edge edgeTrue edgeFalse : Edge} {span : Span}
      {condition whenTrue whenFalse : Expr} {text textTrue textFalse : List Token}
      {ifToken thenToken elseToken : Token} (hif : ifToken.kind = .ifWord)
      (hthen : thenToken.kind = .thenWord) (helse : elseToken.kind = .elseWord)
      (h : Written edge condition text) (htrue : Written edgeTrue whenTrue textTrue)
      (hfalse : Written edgeFalse whenFalse textFalse) :
      Written .dangling (.conditional span condition whenTrue whenFalse)
        (ifToken :: (text ++ thenToken :: (textTrue ++ elseToken :: textFalse)))

section Bare

@[simp]
theorem bareAll_eq_map (es : List Expr) : bareAll es = es.map bare := by
  induction es with
  | nil => rfl
  | cons e es ih => rw [bareAll, ih, List.map_cons]

theorem bare_between {op : BinaryOp} {span : Span} {left right left' right' : Expr}
    (hleft : left'.bare = left.bare) (hright : right'.bare = right.bare) :
    (between op left' right').bare = (Expr.binary span op left right).bare := by
  simp only [between, bare, hleft, hright]

/-- Only a name is a name with every span forgotten. -/
theorem eq_identifier_of_bare {e : Expr} {span : Span} {name : String}
    (h : e.bare = (identifier span name).bare) : ∃ span', e = identifier span' name := by
  cases e with
  | identifier span' name' =>
    cases h
    exact ⟨span', rfl⟩
  | _ => simp only [bare, reduceCtorEq] at h

end Bare

section Context

open Grammar

/-- Whether an expression may be read at a level: an operator that no parentheses keep together
binds more tightly. -/
def Fits (level : Level) (edge : Edge) (e : Expr) : Prop :=
  edge = .grouped ∨ ∀ op ∈ e.operator?, level < op.level

/-- The level at which the last operand of a text is read. -/
def lastLevel? : Edge → Expr → Option Level
  | .grouped, _ => none
  | .dangling, _ => some .default
  | .closed, unary _ _ _ => some .unary
  | .closed, binary _ op _ _ => some op.rightLevel
  | .closed, _ => none

/-- Whether a token may follow a text: it is not taken into the last operand. -/
def Follows (edge : Edge) (e : Expr) (kind : TokenKind) : Prop :=
  ∀ level ∈ lastLevel? edge e, Stops level kind

variable {edge : Edge} {e left right operand : Expr} {text : List Token} {kind : TokenKind}
  {op : BinaryOp} {span : Span}

theorem fits_default : Fits .default edge e := Or.inr fun op _ => op.default_lt_level

theorem fits_rightLevel_iff : Fits op.rightLevel edge right ↔
    edge = .grouped ∨ ∀ inner ∈ right.operator?, op.RightFits inner := by
  unfold Fits
  simp only [BinaryOp.rightFits_iff]

/-- No operator between two operands binds as tightly as one before its operand. -/
theorem fits_unary_iff : Fits .unary edge operand ↔
    edge = .grouped ∨ operand.operator? = none := by
  unfold Fits
  refine or_congr_right ?_
  cases operand.operator? with
  | none => simp
  | some inner =>
    have hpower := inner.level_le_power
    refine iff_of_false (fun h => ?_) (by simp)
    have hlevel := h inner rfl
    rw [Level.le_iff_rank] at hpower
    change inner.level.rank ≤ 7 at hpower
    change 8 < inner.level.rank at hlevel
    omega

/-- Where no operand is left open, anything may follow. -/
theorem follows_of_lastLevel?_eq_none (h : lastLevel? edge e = none) : Follows edge e kind := by
  intro level hlevel
  rw [h] at hlevel
  cases hlevel

theorem follows_of_none (h : standardJoining? kind = none) : Follows edge e kind :=
  fun _ _ => stops_of_none h

theorem follows_dangling_iff : Follows .dangling e kind ↔ standardJoining? kind = none := by
  rw [← stops_default_iff]
  unfold Follows lastLevel?
  simp

/-- An operator may follow what fits on the left of it. One that stands before its operand leaves
every operator between operands to what follows. -/
theorem follows_operator_iff : Follows edge left op.kind ↔
    edge ≠ .dangling ∧ (edge = .grouped ∨ ∀ inner ∈ left.operator?, op.LeftFits inner) := by
  cases edge with
  | grouped => simp [Follows, lastLevel?]
  | dangling => simp [follows_dangling_iff, standardJoining?_kind]
  | closed =>
    have hunary : op.level ≤ .unary := Level.le_trans op.level_le_power (by decide)
    cases left with
    | unary span sign operand =>
      simp [Follows, lastLevel?, operator?, stops_kind_iff, hunary]
    | binary span inner first second =>
      simp [Follows, lastLevel?, operator?, stops_kind_iff, BinaryOp.leftFits_iff]
    | _ => simp [Follows, lastLevel?, operator?]

/-- What follows an operator with its operand follows the operand too. -/
theorem follows_unary_iff {sign : UnaryOp} (fits : edge = .grouped ∨ operand.operator? = none) :
    Follows edge.outside (.unary span sign operand) kind ↔
      Follows edge operand kind ∧ Stops .unary kind := by
  have hdefault : Level.default ≤ .unary := by decide
  cases edge with
  | grouped => simp [Follows, lastLevel?, Edge.outside]
  | dangling =>
    simp only [Follows, lastLevel?, Edge.outside, Option.mem_def, Option.some.injEq, forall_eq']
    exact ⟨fun h => ⟨h, h.weaken hdefault⟩, And.left⟩
  | closed =>
    cases operand with
    | binary span inner first second => simp [operator?] at fits
    | _ => simp [Follows, lastLevel?, Edge.outside]

/-- What follows an operator between two operands follows the one on the right too. -/
theorem follows_binary_iff
    (fits : edge = .grouped ∨ ∀ inner ∈ right.operator?, op.RightFits inner) :
    Follows edge.outside (.binary span op left right) kind ↔
      Follows edge right kind ∧ Stops op.rightLevel kind := by
  have hunary : op.rightLevel ≤ .unary := Level.le_of_lt op.rightLevel_lt_unary
  cases edge with
  | grouped => simp [Follows, lastLevel?, Edge.outside]
  | dangling =>
    simp only [Follows, lastLevel?, Edge.outside, Option.mem_def, Option.some.injEq, forall_eq']
    exact ⟨fun h => ⟨h, h.weaken (Level.default_le _)⟩, And.left⟩
  | closed =>
    cases right with
    | unary span sign operand =>
      simp only [Follows, lastLevel?, Edge.outside, Option.mem_def, Option.some.injEq, forall_eq']
      exact ⟨fun h => ⟨h.weaken hunary, h⟩, And.right⟩
    | binary span inner first second =>
      have hinner : op.rightLevel ≤ inner.rightLevel := by
        refine BinaryOp.rightLevel_le_of_rightFits op inner ?_
        simpa [operator?] using fits
      simp only [Follows, lastLevel?, Edge.outside, Option.mem_def, Option.some.injEq, forall_eq']
      exact ⟨fun h => ⟨h.weaken hinner, h⟩, And.right⟩
    | _ => simp [Follows, lastLevel?, Edge.outside]

/-- A name stands alone or in parentheses. -/
theorem Written.ne_dangling_of_identifier {name : String}
    (h : Written edge (.identifier span name) text) : edge ≠ .dangling := by
  cases h with
  | identifier h => simp
  | group hfirst hlast h => simp

def Opens (text : List Token) : Prop :=
  ∃ form, standardOpening? (TokenStream.front text) = some form

theorem Opens.append {behind : List Token} (h : Opens text) : Opens (text ++ behind) := by
  cases text with
  | nil =>
    obtain ⟨form, hform⟩ := h
    cases hform
  | cons token rest => exact h

theorem Opens.length_pos (h : Opens text) : 0 < text.length := by
  cases text with
  | nil =>
    obtain ⟨form, hform⟩ := h
    cases hform
  | cons token rest => exact Nat.succ_pos _

/-- What begins the text of an expression opens an expression. -/
theorem Written.opens (h : Written edge e text) : Opens text := by
  induction h with
  | @boolean span value token h =>
    cases value with
    | true => exact ⟨.primary, by rw [TokenStream.front, h]; rfl⟩
    | false => exact ⟨.primary, by rw [TokenStream.front, h]; rfl⟩
  | number h read => exact ⟨.primary, by rw [TokenStream.front, h]; rfl⟩
  | text h => exact ⟨.primary, by rw [TokenStream.front, h]; rfl⟩
  | identifier h => exact ⟨.primary, by rw [TokenStream.front, h]; rfl⟩
  | group hfirst hlast h ih => exact ⟨.group, by rw [TokenStream.front, hfirst]; rfl⟩
  | list hfirst hlast h listed ih => exact ⟨.list, by rw [TokenStream.front, hfirst]; rfl⟩
  | call hname hfirst hlast h listed ihname ih => exact ihname.append
  | @unary edge span op operand behind sign hsign h fits ih =>
    cases op with
    | negate => exact ⟨.signed, by rw [TokenStream.front, hsign]; rfl⟩
    | not => exact ⟨.signed, by rw [TokenStream.front, hsign]; rfl⟩
  | binary hsign hleft hright ends leftFits rightFits ihleft ihright => exact ihleft.append
  | conditional hif hthen helse h htrue hfalse ih ihtrue ihfalse =>
    exact ⟨.conditional, by rw [TokenStream.front, hif]; rfl⟩

end Context

end Expr

end Piecewise
