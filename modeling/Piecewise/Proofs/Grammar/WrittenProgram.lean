import Piecewise.Program.Basic
import Piecewise.Proofs.Grammar.Written

/-!
# Texts of programs

The token texts that a type, a declaration and a program may be written as. Every token of a text
belongs to one place of it: it is a word or a mark of a form, or it writes a name or a literal of
the form. Beyond that there may be a comma behind the last item of a list or behind the last
expression of a piecewise body, and a semicolon behind such a body.
-/

namespace Piecewise

/-- A token of a kind, or none. -/
def MayStand (kind : TokenKind) (text : List Token) : Prop :=
  text = [] ∨ ∃ token, token.kind = kind ∧ text = [token]

/-- Items one behind the other. -/
inductive InTurn {α : Type} (Written : α → List Token → Prop) : List α → List Token → Prop
  | nil : InTurn Written [] []
  | cons {a : α} {as : List α} {text behind : List Token} (h : Written a text)
      (k : InTurn Written as behind) : InTurn Written (a :: as) (text ++ behind)

theorem InTurn.append {α : Type} {Written : α → List Token → Prop} {as bs : List α}
    {text behind : List Token} (h : InTurn Written as text) (k : InTurn Written bs behind) :
    InTurn Written (as ++ bs) (text ++ behind) := by
  induction h with
  | nil => exact k
  | cons h _ ih =>
    rw [List.cons_append, List.append_assoc]
    exact .cons h ih

inductive TypeExpr.Written : TypeExpr → List Token → Prop
  | primitive {span : Span} {name : PrimitiveType} {token : Token}
      (h : token.kind = .identifier) (named : PrimitiveType.ofName? token.value = some name) :
      Written (.primitive span name) [token]
  | list {span : Span} {element : TypeExpr} {inside : List Token} {first last : Token}
      (hfirst : first.kind = .openBracket) (hlast : last.kind = .closeBracket)
      (h : Written element inside) : Written (.list span element) (first :: (inside ++ [last]))
  | function {span : Span} {inputs : List (TypeExpr × List Token)} {output : TypeExpr}
      {inside behind : List Token} {first last arrow : Token}
      (hfirst : first.kind = .openParen) (hlast : last.kind = .closeParen)
      (harrow : arrow.kind = .arrow) (h : ∀ input ∈ inputs, Written input.1 input.2)
      (listed : Listed Prod.snd inputs inside) (houtput : Written output behind) :
      Written (.function span (inputs.map Prod.fst) output)
        (first :: (inside ++ last :: arrow :: behind))

inductive Param.Written : Param → List Token → Prop
  | intro {span : Span} {type : TypeExpr} {text : List Token} {name colon : Token}
      (hname : name.kind = .identifier) (hcolon : colon.kind = .colon) (h : type.Written text) :
      Written ⟨name.value, type, span⟩ (name :: colon :: text)

inductive Branch.Written : Branch → List Token → Prop
  | intro {edge edge' : Expr.Edge} {span : Span} {guard action : Expr} {text behind : List Token}
      {arrow comma : Token} (harrow : arrow.kind = .fatArrow) (hcomma : comma.kind = .comma)
      (hguard : guard.Written edge text) (haction : action.Written edge' behind) :
      Written ⟨guard, action, span⟩ (text ++ arrow :: (behind ++ [comma]))

inductive Body.Written : Body → List Token → Prop
  | inline {edge : Expr.Edge} {value : Expr} {text : List Token} {mark semicolon : Token}
      (hmark : mark.kind = .assignment) (hsemicolon : semicolon.kind = .semicolon)
      (h : value.Written edge text) : Written (.inline value) (mark :: (text ++ [semicolon]))
  | piecewise {edge : Expr.Edge} {span : Span} {branches : List Branch} {otherwise : Expr}
      {inside text comma semicolon : List Token} {first elseToken arrow last : Token}
      (hfirst : first.kind = .openCurly) (hlast : last.kind = .closeCurly)
      (helse : elseToken.kind = .elseWord) (harrow : arrow.kind = .fatArrow)
      (h : InTurn Branch.Written branches inside) (hotherwise : otherwise.Written edge text)
      (hcomma : MayStand .comma comma) (hsemicolon : MayStand .semicolon semicolon) :
      Written (.piecewise span branches otherwise)
        (first :: (inside ++ elseToken :: arrow :: (text ++ (comma ++ last :: semicolon))))

/-- The texts of a declaration, whatever its number. -/
inductive Declaration.Written : Declaration → List Token → Prop
  | intro {number : Nat} {span : Span} {parameters : List (Param × List Token)}
      {returns : TypeExpr} {body : Body} {inside behind text : List Token}
      {fnToken name first last arrow : Token} (hfn : fnToken.kind = .fn)
      (hname : name.kind = .identifier) (hfirst : first.kind = .openParen)
      (hlast : last.kind = .closeParen) (harrow : arrow.kind = .arrow)
      (h : ∀ parameter ∈ parameters, parameter.1.Written parameter.2)
      (listed : Listed Prod.snd parameters inside) (hreturns : returns.Written behind)
      (hbody : body.Written text) :
      Written ⟨number, name.value, parameters.map Prod.fst, returns, body, span⟩
        (fnToken :: name :: first :: (inside ++ last :: arrow :: (behind ++ text)))

def Program.Written (p : Program) (text : List Token) : Prop :=
  InTurn Declaration.Written p.declarations text

theorem Declaration.Written.renumber {d : Declaration} {text : List Token} (h : d.Written text)
    (number : Nat) : ({ d with number := number } : Declaration).Written text := by
  cases h with
  | intro hfn hname hfirst hlast harrow h listed hreturns hbody =>
    exact .intro hfn hname hfirst hlast harrow h listed hreturns hbody

/-- Numbering leaves the texts of declarations as they are. -/
theorem inTurn_mapIdx {ds : List Declaration} {text : List Token} {number : Nat → Nat}
    (h : InTurn Declaration.Written ds text) :
    InTurn Declaration.Written (ds.mapIdx fun i d => { d with number := number i }) text := by
  induction h generalizing number with
  | nil => exact .nil
  | cons h k ih =>
    rw [List.mapIdx_cons]
    exact .cons (h.renumber (number 0)) ih

end Piecewise
