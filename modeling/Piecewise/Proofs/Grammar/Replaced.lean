import Piecewise.Proofs.Grammar.WrittenProgram
import Piecewise.Proofs.Token.Joined

/-!
# Texts at other places

What a text writes is told by the kinds and the values of its tokens. So a text of an expression, a
type or a declaration stays one when it is written at another place.
-/

namespace Piecewise

/-- Two texts with the same words in the same order, wherever they stand. -/
def SameWords (text text' : List Token) : Prop := text'.map Token.word = text.map Token.word

namespace SameWords

variable {token : Token} {text text' behind : List Token}

theorem nil (h : SameWords [] text') : text' = [] := List.map_eq_nil_iff.mp h

theorem cons (h : SameWords (token :: text) text') :
    ∃ token' rest, text' = token' :: rest ∧ token'.kind = token.kind ∧
      token'.value = token.value ∧ SameWords text rest := by
  obtain ⟨token', rest, rfl, hword, hrest⟩ := List.map_eq_cons_iff.mp h
  obtain ⟨hkind, hvalue⟩ := Prod.mk.inj hword
  exact ⟨token', rest, rfl, hkind, hvalue, hrest⟩

theorem singleton (h : SameWords [token] text') :
    ∃ token', text' = [token'] ∧ token'.kind = token.kind ∧ token'.value = token.value := by
  obtain ⟨token', rest, rfl, hkind, hvalue, hrest⟩ := h.cons
  rw [hrest.nil]
  exact ⟨token', rfl, hkind, hvalue⟩

theorem append (h : SameWords (text ++ behind) text') :
    ∃ front rest, text' = front ++ rest ∧ SameWords text front ∧ SameWords behind rest := by
  unfold SameWords at h
  rw [List.map_append] at h
  exact List.map_eq_append_iff.mp h

end SameWords

section Lists

variable {α β : Type} {text : α → List Token} {as : List α} {inside inside' : List Token}

/-- Items with commas between them stay so where each item has the texts of the same words. -/
theorem Listed.replace {P : α → Prop} (out : α → β) (h : Listed text as inside)
    (hitem : ∀ a ∈ as, ∀ text', SameWords (text a) text' →
      ∃ b, text b = text' ∧ P b ∧ out b = out a)
    (k : SameWords inside inside') :
    ∃ bs, Listed text bs inside' ∧ (∀ b ∈ bs, P b) ∧ bs.map out = as.map out := by
  induction h generalizing inside' with
  | none =>
    rw [k.nil]
    exact ⟨[], .none, by simp, rfl⟩
  | one =>
    obtain ⟨b, rfl, hb, hout⟩ := hitem _ List.mem_cons_self _ k
    exact ⟨[b], .one, by simpa using hb, by simpa using hout⟩
  | more hcomma listed ih =>
    obtain ⟨front, rest, rfl, hfront, hrest⟩ := k.append
    obtain ⟨b, rfl, hb, hout⟩ := hitem _ List.mem_cons_self _ hfront
    obtain ⟨comma', behind', rfl, hkind, _, hbehind⟩ := hrest.cons
    obtain ⟨bs, hlisted, hbs, houts⟩ := ih (fun a ha => hitem a (List.mem_cons_of_mem _ ha)) hbehind
    refine ⟨b :: bs, .more (hkind.trans hcomma) hlisted, List.forall_mem_cons.mpr ⟨hb, hbs⟩, ?_⟩
    rw [List.map_cons, List.map_cons, hout, houts]

/-- The same for items that are paired with their texts. -/
theorem Listed.replace_pairs {Written : β → List Token → Prop} {pairs : List (β × List Token)}
    (h : Listed Prod.snd pairs inside)
    (hitem : ∀ p ∈ pairs, ∀ text', SameWords p.2 text' → Written p.1 text')
    (k : SameWords inside inside') :
    ∃ pairs', Listed Prod.snd pairs' inside' ∧ (∀ p ∈ pairs', Written p.1 p.2) ∧
      pairs'.map Prod.fst = pairs.map Prod.fst :=
  h.replace Prod.fst (fun p hp text' hwords => ⟨(p.1, text'), rfl, hitem p hp text' hwords, rfl⟩) k

theorem InTurn.replace {Written : α → List Token → Prop} (h : InTurn Written as inside)
    (hitem : ∀ a text text', Written a text → SameWords text text' → Written a text')
    (k : SameWords inside inside') : InTurn Written as inside' := by
  induction h generalizing inside' with
  | nil =>
    rw [k.nil]
    exact .nil
  | cons h _ ih =>
    obtain ⟨front, rest, rfl, hfront, hrest⟩ := k.append
    exact .cons (hitem _ _ _ h hfront) (ih hrest)

theorem MayStand.replace {kind : TokenKind} (h : MayStand kind inside)
    (k : SameWords inside inside') : MayStand kind inside' := by
  rcases h with rfl | ⟨token, hkind, rfl⟩
  · exact Or.inl k.nil
  · obtain ⟨token', rfl, hkind', _⟩ := k.singleton
    exact Or.inr ⟨token', hkind'.trans hkind, rfl⟩

end Lists

section Forms

variable {text text' : List Token}

/-- Expressions with commas between them, as they stand in a list and in a call. -/
theorem Expr.replace_pieces {pieces : List Piece}
    (h : ∀ p ∈ pieces, ∀ text', SameWords p.text text' → Written p.edge p.expr text')
    (listed : Listed Piece.text pieces text) (k : SameWords text text') :
    ∃ pieces', Listed Piece.text pieces' text' ∧
      (∀ p ∈ pieces', Written p.edge p.expr p.text) ∧
      pieces'.map Piece.expr = pieces.map Piece.expr :=
  listed.replace Piece.expr
    (fun p hp text' hwords => ⟨⟨p.edge, p.expr, text'⟩, rfl, h p hp text' hwords, rfl⟩) k

/-- Whatever words write an expression, they write it at any place. -/
theorem Expr.Written.replace {edge : Edge} {e : Expr} (h : Written edge e text)
    (k : SameWords text text') : Written edge e text' := by
  induction h generalizing text' with
  | boolean h =>
    obtain ⟨token', rfl, hkind, _⟩ := k.singleton
    exact .boolean (hkind.trans h)
  | number h read =>
    obtain ⟨token', rfl, hkind, hvalue⟩ := k.singleton
    exact .number (hkind.trans h) (hvalue ▸ read)
  | text h =>
    obtain ⟨token', rfl, hkind, hvalue⟩ := k.singleton
    rw [← hvalue]
    exact .text (hkind.trans h)
  | identifier h =>
    obtain ⟨token', rfl, hkind, hvalue⟩ := k.singleton
    rw [← hvalue]
    exact .identifier (hkind.trans h)
  | group hfirst hlast h ih =>
    obtain ⟨first', rest, rfl, hfirst', _, hrest⟩ := k.cons
    obtain ⟨inside', end', rfl, hinside, hend⟩ := hrest.append
    obtain ⟨last', rfl, hlast', _⟩ := hend.singleton
    exact .group (hfirst'.trans hfirst) (hlast'.trans hlast) (ih hinside)
  | list hfirst hlast h listed ih =>
    obtain ⟨first', rest, rfl, hfirst', _, hrest⟩ := k.cons
    obtain ⟨inside', end', rfl, hinside, hend⟩ := hrest.append
    obtain ⟨last', rfl, hlast', _⟩ := hend.singleton
    obtain ⟨pieces, hlisted, hpieces, hexprs⟩ :=
      replace_pieces (fun p hp _ hwords => ih p hp hwords) listed hinside
    rw [← hexprs]
    exact .list (hfirst'.trans hfirst) (hlast'.trans hlast) hpieces hlisted
  | call hname hfirst hlast h listed ihname ih =>
    obtain ⟨name', rest, rfl, hname', hrest⟩ := k.append
    obtain ⟨first', rest', rfl, hfirst', _, hrest'⟩ := hrest.cons
    obtain ⟨inside', end', rfl, hinside, hend⟩ := hrest'.append
    obtain ⟨last', rfl, hlast', _⟩ := hend.singleton
    obtain ⟨pieces, hlisted, hpieces, hexprs⟩ :=
      replace_pieces (fun p hp _ hwords => ih p hp hwords) listed hinside
    rw [← hexprs]
    exact .call (ihname hname') (hfirst'.trans hfirst) (hlast'.trans hlast) hpieces hlisted
  | unary hsign h fits ih =>
    obtain ⟨sign', behind', rfl, hsign', _, hbehind⟩ := k.cons
    exact .unary (hsign'.trans hsign) (ih hbehind) fits
  | binary hsign hleft hright ends leftFits rightFits ihleft ihright =>
    obtain ⟨before', rest, rfl, hbefore, hrest⟩ := k.append
    obtain ⟨sign', behind', rfl, hsign', _, hbehind⟩ := hrest.cons
    exact .binary (hsign'.trans hsign) (ihleft hbefore) (ihright hbehind) ends leftFits rightFits
  | conditional hif hthen helse h htrue hfalse ih ihtrue ihfalse =>
    obtain ⟨if', rest₁, rfl, hif', _, hrest₁⟩ := k.cons
    obtain ⟨text', rest₂, rfl, htext, hrest₂⟩ := hrest₁.append
    obtain ⟨then', rest₃, rfl, hthen', _, hrest₃⟩ := hrest₂.cons
    obtain ⟨textTrue', rest₄, rfl, htextTrue, hrest₄⟩ := hrest₃.append
    obtain ⟨else', textFalse', rfl, helse', _, htextFalse⟩ := hrest₄.cons
    exact .conditional (hif'.trans hif) (hthen'.trans hthen) (helse'.trans helse) (ih htext)
      (ihtrue htextTrue) (ihfalse htextFalse)

theorem TypeExpr.Written.replace {type : TypeExpr} (h : type.Written text)
    (k : SameWords text text') : type.Written text' := by
  induction h generalizing text' with
  | primitive h named =>
    obtain ⟨token', rfl, hkind, hvalue⟩ := k.singleton
    exact .primitive (hkind.trans h) (hvalue ▸ named)
  | list hfirst hlast h ih =>
    obtain ⟨first', rest, rfl, hfirst', _, hrest⟩ := k.cons
    obtain ⟨inside', end', rfl, hinside, hend⟩ := hrest.append
    obtain ⟨last', rfl, hlast', _⟩ := hend.singleton
    exact .list (hfirst'.trans hfirst) (hlast'.trans hlast) (ih hinside)
  | function hfirst hlast harrow h listed houtput ih ihoutput =>
    obtain ⟨first', rest, rfl, hfirst', _, hrest⟩ := k.cons
    obtain ⟨inside', rest', rfl, hinside, hrest'⟩ := hrest.append
    obtain ⟨last', rest'', rfl, hlast', _, hrest''⟩ := hrest'.cons
    obtain ⟨arrow', behind', rfl, harrow', _, hbehind⟩ := hrest''.cons
    obtain ⟨inputs', hlisted, hwritten, hinputs⟩ :=
      listed.replace_pairs (fun input hmem _ hwords => ih input hmem hwords) hinside
    rw [← hinputs]
    exact .function (hfirst'.trans hfirst) (hlast'.trans hlast) (harrow'.trans harrow) hwritten
      hlisted (ihoutput hbehind)

theorem Param.Written.replace {p : Param} (h : p.Written text) (k : SameWords text text') :
    p.Written text' := by
  cases h with
  | intro hname hcolon h =>
    obtain ⟨name', rest, rfl, hname', hvalue, hrest⟩ := k.cons
    obtain ⟨colon', type', rfl, hcolon', _, htype⟩ := hrest.cons
    rw [← hvalue]
    exact .intro (hname'.trans hname) (hcolon'.trans hcolon) (h.replace htype)

theorem Branch.Written.replace {branch : Branch} (h : branch.Written text)
    (k : SameWords text text') : branch.Written text' := by
  cases h with
  | intro harrow hcomma hguard haction =>
    obtain ⟨guard', rest, rfl, hguard', hrest⟩ := k.append
    obtain ⟨arrow', rest', rfl, harrow', _, hrest'⟩ := hrest.cons
    obtain ⟨action', end', rfl, haction', hend⟩ := hrest'.append
    obtain ⟨comma', rfl, hcomma', _⟩ := hend.singleton
    exact .intro (harrow'.trans harrow) (hcomma'.trans hcomma) (hguard.replace hguard')
      (haction.replace haction')

theorem Body.Written.replace {body : Body} (h : body.Written text) (k : SameWords text text') :
    body.Written text' := by
  cases h with
  | inline hmark hsemicolon h =>
    obtain ⟨mark', rest, rfl, hmark', _, hrest⟩ := k.cons
    obtain ⟨value', end', rfl, hvalue, hend⟩ := hrest.append
    obtain ⟨semicolon', rfl, hsemicolon', _⟩ := hend.singleton
    exact .inline (hmark'.trans hmark) (hsemicolon'.trans hsemicolon) (h.replace hvalue)
  | piecewise hfirst hlast helse harrow h hotherwise hcomma hsemicolon =>
    obtain ⟨first', rest₁, rfl, hfirst', _, hrest₁⟩ := k.cons
    obtain ⟨inside', rest₂, rfl, hinside, hrest₂⟩ := hrest₁.append
    obtain ⟨else', rest₃, rfl, helse', _, hrest₃⟩ := hrest₂.cons
    obtain ⟨arrow', rest₄, rfl, harrow', _, hrest₄⟩ := hrest₃.cons
    obtain ⟨otherwise', rest₅, rfl, hotherwise', hrest₅⟩ := hrest₄.append
    obtain ⟨comma', rest₆, rfl, hcomma', hrest₆⟩ := hrest₅.append
    obtain ⟨last', semicolon', rfl, hlast', _, hsemicolon'⟩ := hrest₆.cons
    have hbranches := h.replace (fun branch text text' h k => Branch.Written.replace h k) hinside
    exact .piecewise (hfirst'.trans hfirst) (hlast'.trans hlast) (helse'.trans helse)
      (harrow'.trans harrow) hbranches (hotherwise.replace hotherwise') (hcomma.replace hcomma')
      (hsemicolon.replace hsemicolon')

theorem Declaration.Written.replace {d : Declaration} (h : d.Written text)
    (k : SameWords text text') : d.Written text' := by
  cases h with
  | intro hfn hname hfirst hlast harrow h listed hreturns hbody =>
    obtain ⟨fn', rest₁, rfl, hfn', _, hrest₁⟩ := k.cons
    obtain ⟨name', rest₂, rfl, hname', hvalue, hrest₂⟩ := hrest₁.cons
    obtain ⟨first', rest₃, rfl, hfirst', _, hrest₃⟩ := hrest₂.cons
    obtain ⟨inside', rest₄, rfl, hinside, hrest₄⟩ := hrest₃.append
    obtain ⟨last', rest₅, rfl, hlast', _, hrest₅⟩ := hrest₄.cons
    obtain ⟨arrow', rest₆, rfl, harrow', _, hrest₆⟩ := hrest₅.cons
    obtain ⟨returns', body', rfl, hreturns', hbody'⟩ := hrest₆.append
    obtain ⟨parameters', hlisted, hwritten, hparameters⟩ :=
      listed.replace_pairs (fun p hp _ hwords => (h p hp).replace hwords) hinside
    rw [← hvalue, ← hparameters]
    exact .intro (hfn'.trans hfn) (hname'.trans hname) (hfirst'.trans hfirst)
      (hlast'.trans hlast) (harrow'.trans harrow) hwritten hlisted (hreturns.replace hreturns')
      (hbody.replace hbody')

end Forms

end Piecewise
