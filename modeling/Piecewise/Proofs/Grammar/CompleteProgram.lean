import Piecewise.Grammar.Program
import Piecewise.Proofs.Grammar.Complete
import Piecewise.Proofs.Grammar.SoundProgram

/-!
# Reading the texts of programs

Every text of declarations is read back as the declarations, spans and numbers apart. What stands
behind a declaration is another one or the end of the source, so it is not taken for the semicolon
that may end a piecewise body.
-/

namespace Piecewise

open Piecewise.Parser Piecewise.TokenStream

section Bare

mutual

def TypeExpr.bare : TypeExpr → TypeExpr
  | .primitive _ name => .primitive default name
  | .list _ element => .list default element.bare
  | .function _ inputs output => .function default (TypeExpr.bareAll inputs) output.bare

def TypeExpr.bareAll : List TypeExpr → List TypeExpr
  | [] => []
  | type :: rest => type.bare :: TypeExpr.bareAll rest

end

def Param.bare (p : Param) : Param := ⟨p.name, p.type.bare, default⟩

def Branch.bare (b : Branch) : Branch := ⟨b.guard.bare, b.action.bare, default⟩

def Body.bare : Body → Body
  | .inline value => .inline value.bare
  | .piecewise _ branches otherwise => .piecewise default (branches.map Branch.bare) otherwise.bare

def Declaration.bare (d : Declaration) : Declaration :=
  ⟨d.number, d.name, d.parameters.map Param.bare, d.returns.bare, d.body.bare, default⟩

/-- The declaration with its span and its number forgotten. -/
def Declaration.unnumbered (d : Declaration) : Declaration := { d.bare with number := 0 }

@[simp]
theorem TypeExpr.bareAll_eq_map (types : List TypeExpr) :
    TypeExpr.bareAll types = types.map TypeExpr.bare := by
  induction types with
  | nil => rfl
  | cons type types ih => rw [TypeExpr.bareAll, ih, List.map_cons]

end Bare

/-- A token that may stand is taken if it does, where no other of its kind follows. -/
theorem eat_of_mayStand {kind : TokenKind} {text rest : List Token} {s : TokenStream}
    (h : MayStand kind text) (hs : s.ahead = text ++ rest) (hrest : front rest ≠ kind) :
    ∃ b t, eat kind s = .ok b t ∧ s.Passes text t := by
  rcases h with rfl | ⟨token, hkind, rfl⟩
  · have hcurrent : s.current.kind ≠ kind := by
      rw [kind_current, hs]
      exact hrest
    exact ⟨false, s, eat_eq_ok_iff.mpr (Or.inr ⟨hcurrent, rfl, rfl⟩), .refl s⟩
  · obtain ⟨t, hadvance, hpasses, _⟩ := advance_of_ahead hs
    have hcurrent : s.current.kind = kind := by
      rw [current_of_ahead hs]
      exact hkind
    cases hadvance
    exact ⟨true, _, eat_eq_ok_iff.mpr (Or.inl ⟨hcurrent, rfl, rfl⟩), hpasses⟩

namespace Grammar

section Types

variable {g : Grammar} {type : TypeExpr} {text : List Token}

/-- A text of a type begins with a token, and not with the parenthesis that closes inputs. -/
theorem front_of_written (h : type.Written text) : text ≠ [] ∧ front text ≠ .closeParen := by
  cases h with
  | primitive h named => simp [front, h]
  | list hfirst hlast h => simp [front, hfirst]
  | function hfirst hlast harrow h listed houtput => simp [front, hfirst]

def ReadsType (g : Grammar) (type : TypeExpr) (text : List Token) : Prop :=
  ∀ (n : Nat) (s : TokenStream) (rest : List Token), s.ahead = text ++ rest → s.ahead.length ≤ n →
    ∃ type' t, g.typeWithin n s = .ok type' t ∧ type'.bare = type.bare ∧ s.Passes text t

theorem readsType_primitive (hg : g.typeOpening? = standardTypeOpening?) {span : Span}
    {name : PrimitiveType} {token : Token} (h : token.kind = .identifier)
    (named : PrimitiveType.ofName? token.value = some name) :
    ReadsType g (.primitive span name) [token] := by
  intro n s rest hs hn
  obtain ⟨t, hok, hpasses, _⟩ := expect_of_ahead hs h
  refine ⟨.primitive token.span name, t, ?_, rfl, hpasses⟩
  cases n with
  | zero => simp [hs] at hn
  | succ n =>
    have hopens : standardTypeOpening? s.current.kind = some .name := by
      rw [current_of_ahead hs, h]
      rfl
    rw [typeWithin, kind_bind, hg, hopens]
    simp only [primitiveType, bind_of_ok hok, named]
    rfl

theorem readsType_list (hg : g.typeOpening? = standardTypeOpening?) {span : Span}
    {first last : Token} (hfirst : first.kind = .openBracket) (hlast : last.kind = .closeBracket)
    (h : ReadsType g type text) : ReadsType g (.list span type) (first :: (text ++ [last])) := by
  intro n s rest hs hn
  have hs : s.ahead = first :: (text ++ last :: rest) := by simpa using hs
  obtain ⟨s₁, hok₁, hpasses₁, hs₁⟩ := expect_of_ahead hs hfirst
  cases n with
  | zero => simp [hs] at hn
  | succ n =>
    have hn₁ : s₁.ahead.length ≤ n := hpasses₁.length_le_pred Nat.one_pos hn
    obtain ⟨element, s₂, hok₂, hbare, hpasses₂⟩ := h n s₁ _ hs₁ hn₁
    obtain ⟨t, hok₃, hpasses₃, _⟩ := expect_of_ahead (hpasses₂.rest hs₁) hlast
    have hopens : standardTypeOpening? s.current.kind = some .list := by
      rw [current_of_ahead hs, hfirst]
      rfl
    refine ⟨.list ⟨first.span.start, t.before⟩ element, t, ?_, ?_,
      hpasses₁.trans (hpasses₂.trans hpasses₃)⟩
    · rw [typeWithin, kind_bind, hg, hopens]
      simp only [listType, bind_of_ok hok₁, bind_of_ok hok₂, bind_of_ok hok₃]
      rfl
    · simp only [TypeExpr.bare, hbare]

theorem readsType_function (hg : g.typeOpening? = standardTypeOpening?) {span : Span}
    {inputs : List (TypeExpr × List Token)} {inside : List Token} {first last arrow : Token}
    (hfirst : first.kind = .openParen) (hlast : last.kind = .closeParen)
    (harrow : arrow.kind = .arrow)
    (h : ∀ input ∈ inputs, input.1.Written input.2 ∧ ReadsType g input.1 input.2)
    (listed : Listed Prod.snd inputs inside) (houtput : ReadsType g type text) :
    ReadsType g (.function span (inputs.map Prod.fst) type)
      (first :: (inside ++ last :: arrow :: text)) := by
  intro n s rest hs hn
  have hs : s.ahead = first :: (inside ++ last :: arrow :: (text ++ rest)) := by simpa using hs
  obtain ⟨s₁, hok₁, hpasses₁, hs₁⟩ := expect_of_ahead hs hfirst
  cases n with
  | zero => simp [hs] at hn
  | succ n =>
    have hn₁ : s₁.ahead.length ≤ n := hpasses₁.length_le_pred Nat.one_pos hn
    have hinputs : ∃ types t, separated (g.typeWithin n) .closeParen n s₁ = .ok types t ∧
        types.map TypeExpr.bare = inputs.map (fun input => input.1.bare) ∧ s₁.Passes inside t :=
      separated_of_listed (by decide) listed (fun input hmem => front_of_written (h input hmem).1)
        (fun input hmem s rest hs hn _ => (h input hmem).2 n s rest hs hn) hs₁ hlast hn₁ hn₁
    obtain ⟨types, s₂, hok₂, hbare₂, hpasses₂⟩ := hinputs
    have hs₂ := hpasses₂.rest hs₁
    obtain ⟨s₃, hok₃, hpasses₃, hs₃⟩ := expect_of_ahead hs₂ hlast
    obtain ⟨s₄, hok₄, hpasses₄, hs₄⟩ := expect_of_ahead hs₃ harrow
    have hn₄ : s₄.ahead.length ≤ n :=
      hpasses₄.length_le (hpasses₃.length_le (hpasses₂.length_le hn₁))
    obtain ⟨output, t, hok₅, hbare₅, hpasses₅⟩ := houtput n s₄ rest hs₄ hn₄
    have hopens : standardTypeOpening? s.current.kind = some .function := by
      rw [current_of_ahead hs, hfirst]
      rfl
    refine ⟨.function ⟨first.span.start, t.before⟩ types output, t, ?_, ?_,
      hpasses₁.trans (hpasses₂.trans (hpasses₃.trans (hpasses₄.trans hpasses₅)))⟩
    · rw [typeWithin, kind_bind, hg, hopens]
      simp only [functionType, bind_of_ok hok₁, bind_of_ok hok₂, bind_of_ok hok₃,
        bind_of_ok hok₄, bind_of_ok hok₅]
      rfl
    · simp only [TypeExpr.bare, TypeExpr.bareAll_eq_map, hbare₂, hbare₅, List.map_map]
      rfl

/-- Every text of a type is read as the type. -/
theorem readsType_of_written (hg : g.typeOpening? = standardTypeOpening?) (h : type.Written text) :
    ReadsType g type text := by
  induction h with
  | primitive h named => exact readsType_primitive hg h named
  | list hfirst hlast h ih => exact readsType_list hg hfirst hlast ih
  | function hfirst hlast harrow h listed houtput ih ihoutput =>
    have hinputs := fun input hmem => And.intro (h input hmem) (ih input hmem)
    exact readsType_function hg hfirst hlast harrow hinputs listed ihoutput

end Types

section Declarations

variable {g : Grammar} {bound n : Nat} {s : TokenStream} {text rest : List Token}

theorem front_of_parameter {p : Param} (h : p.Written text) :
    text ≠ [] ∧ front text ≠ .closeParen := by
  cases h with
  | intro hname hcolon h => simp [front, hname]

theorem parameter_of_written (hg : g.typeOpening? = standardTypeOpening?) {p : Param}
    (h : p.Written text) (hs : s.ahead = text ++ rest) (hn : s.ahead.length ≤ bound) :
    ∃ p' t, g.parameter bound s = .ok p' t ∧ p'.bare = p.bare ∧ s.Passes text t := by
  cases h with
  | @intro span type typeText name colon hname hcolon h =>
    obtain ⟨s₁, hok₁, hpasses₁, hs₁⟩ := expect_of_ahead hs hname
    obtain ⟨s₂, hok₂, hpasses₂, hs₂⟩ := expect_of_ahead hs₁ hcolon
    have hn₂ : s₂.ahead.length ≤ bound := hpasses₂.length_le (hpasses₁.length_le hn)
    obtain ⟨type', t, hok₃, hbare, hpasses₃⟩ := readsType_of_written hg h bound s₂ rest hs₂ hn₂
    refine ⟨⟨name.value, type', ⟨name.span.start, t.before⟩⟩, t, ?_, ?_,
      hpasses₁.trans (hpasses₂.trans hpasses₃)⟩
    · rw [parameter, bind_of_ok hok₁, bind_of_ok hok₂, bind_of_ok hok₃]
      rfl
    · simp only [Param.bare, hbare]

theorem branch_of_written (hg : g.HasExpressions) {b : Branch} (h : b.Written text)
    (hs : s.ahead = text ++ rest) (hn : s.ahead.length ≤ bound) :
    ∃ b' t, g.branch bound s = .ok b' t ∧ b'.bare = b.bare ∧ s.Passes text t := by
  cases h with
  | @intro edge edge' span guard action guardText actionText arrow comma harrow hcomma hguard
      haction =>
    have hs : s.ahead = guardText ++ arrow :: (actionText ++ comma :: rest) := by simpa using hs
    obtain ⟨guard', s₁, hok₁, hbare₁, hpasses₁⟩ :=
      (hguard.reads hg).inside hg hguard.opens hs hn (by rw [front, harrow]; rfl)
    obtain ⟨s₂, hok₂, hpasses₂, hs₂⟩ := expect_of_ahead (hpasses₁.rest hs) harrow
    have hn₂ : s₂.ahead.length ≤ bound := hpasses₂.length_le (hpasses₁.length_le hn)
    obtain ⟨action', s₃, hok₃, hbare₃, hpasses₃⟩ :=
      (haction.reads hg).inside hg haction.opens hs₂ hn₂ (by rw [front, hcomma]; rfl)
    obtain ⟨t, hok₄, hpasses₄, _⟩ := expect_of_ahead (hpasses₃.rest hs₂) hcomma
    refine ⟨⟨guard', action', ⟨guard'.span.start, action'.span.stop⟩⟩, t, ?_, ?_,
      hpasses₁.trans (hpasses₂.trans (hpasses₃.trans hpasses₄))⟩
    · rw [branch, bind_of_ok hok₁, bind_of_ok hok₂, bind_of_ok hok₃, bind_of_ok hok₄]
      rfl
    · simp only [Branch.bare, hbare₁, hbare₃]

/-- A branch opens with its guard, which is neither `else` nor the end of the body. -/
theorem branches_succ {form : Opening} (h : standardOpening? s.current.kind = some form) :
    g.branches bound (n + 1) s =
      (do return (← g.branch bound) :: (← g.branches bound n)) s := by
  rw [branches, kind_bind]
  cases hkind : s.current.kind with
  | elseWord | closeCurly | eof =>
    rw [hkind] at h
    cases h
  | _ => rfl

/-- Branches are read up to the branch for the case that no guard holds. -/
theorem branches_of_written (hg : g.HasExpressions) {bs : List Branch} {elseToken : Token}
    (h : InTurn Branch.Written bs text) (helse : elseToken.kind = .elseWord)
    (hs : s.ahead = text ++ elseToken :: rest) (hn : s.ahead.length ≤ n)
    (hbound : s.ahead.length ≤ bound) :
    ∃ bs' t, g.branches bound n s = .ok bs' t ∧ bs'.map Branch.bare = bs.map Branch.bare ∧
      s.Passes text t := by
  induction h generalizing n s with
  | nil =>
    refine ⟨[], s, ?_, rfl, .refl s⟩
    cases n with
    | zero => simp [hs] at hn
    | succ n =>
      rw [branches, kind_bind, current_of_ahead hs, helse]
      rfl
  | @cons b bs branchText behind hb k ih =>
    have hs : s.ahead = branchText ++ (behind ++ elseToken :: rest) := by simpa using hs
    obtain ⟨b', s₁, hok₁, hbare₁, hpasses₁⟩ := branch_of_written hg hb hs hbound
    have hopens : Expr.Opens branchText := by
      cases hb with
      | intro harrow hcomma hguard haction => exact hguard.opens.append
    have hpos : 0 < branchText.length := hopens.length_pos
    cases n with
    | zero =>
      rw [hs, List.length_append] at hn
      omega
    | succ n =>
      have hn₁ : s₁.ahead.length ≤ n := hpasses₁.length_le_pred hpos hn
      obtain ⟨bs', t, hok₂, hbare₂, hpasses₂⟩ :=
        ih (hpasses₁.rest hs) hn₁ (hpasses₁.length_le hbound)
      obtain ⟨form, hform⟩ := hopens
      have hkind : standardOpening? s.current.kind = some form := by
        rw [kind_current, hs, front_append (List.length_pos_iff.mp hpos)]
        exact hform
      refine ⟨b' :: bs', t, ?_, ?_, hpasses₁.trans hpasses₂⟩
      · rw [branches_succ hkind, bind_of_ok hok₁, bind_of_ok hok₂]
        rfl
      · rw [List.map_cons, List.map_cons, hbare₁, hbare₂]

/-- A body is read as it is written, if no semicolon follows it. -/
theorem body_of_written (hg : g.HasExpressions) {body : Body} (h : body.Written text)
    (hs : s.ahead = text ++ rest) (hn : s.ahead.length ≤ bound) (hrest : front rest ≠ .semicolon) :
    ∃ body' t, g.body bound s = .ok body' t ∧ body'.bare = body.bare ∧ s.Passes text t := by
  cases h with
  | @inline edge value valueText mark semicolon hmark hsemicolon h =>
    have hs : s.ahead = mark :: (valueText ++ semicolon :: rest) := by simpa using hs
    obtain ⟨s₁, hok₁, hpasses₁, hs₁⟩ := advance_of_ahead hs
    obtain ⟨value', s₂, hok₂, hbare, hpasses₂⟩ :=
      (h.reads hg).inside hg h.opens hs₁ (hpasses₁.length_le hn) (by rw [front, hsemicolon]; rfl)
    obtain ⟨t, hok₃, hpasses₃, _⟩ := expect_of_ahead (hpasses₂.rest hs₁) hsemicolon
    refine ⟨.inline value', t, ?_, ?_, hpasses₁.trans (hpasses₂.trans hpasses₃)⟩
    · rw [Grammar.body, kind_bind, current_of_ahead hs, hmark]
      simp only [bind_of_ok hok₁, bind_of_ok hok₂, bind_of_ok hok₃]
      rfl
    · simp only [Body.bare, hbare]
  | @piecewise edge span branches otherwise inside otherwiseText comma semicolon first elseToken
      arrow last hfirst hlast helse harrow h hotherwise hcomma hsemicolon =>
    have hs : s.ahead = first :: (inside ++ elseToken :: arrow ::
        (otherwiseText ++ (comma ++ last :: (semicolon ++ rest)))) := by simpa using hs
    obtain ⟨s₁, hok₁, hpasses₁, hs₁⟩ := expect_of_ahead hs hfirst
    have hn₁ : s₁.ahead.length ≤ bound := hpasses₁.length_le hn
    obtain ⟨branches', s₂, hok₂, hbare₂, hpasses₂⟩ :=
      branches_of_written hg h helse hs₁ hn₁ hn₁
    obtain ⟨s₃, hok₃, hpasses₃, hs₃⟩ := expect_of_ahead (hpasses₂.rest hs₁) helse
    obtain ⟨s₄, hok₄, hpasses₄, hs₄⟩ := expect_of_ahead hs₃ harrow
    have hn₄ : s₄.ahead.length ≤ bound :=
      hpasses₄.length_le (hpasses₃.length_le (hpasses₂.length_le hn₁))
    have hends : standardJoining? (front (comma ++ last :: (semicolon ++ rest))) = none := by
      rcases hcomma with rfl | ⟨token, hkind, rfl⟩
      · rw [List.nil_append, front, hlast]; rfl
      · rw [List.singleton_append, front, hkind]; rfl
    obtain ⟨otherwise', s₅, hok₅, hbare₅, hpasses₅⟩ :=
      (hotherwise.reads hg).inside hg hotherwise.opens hs₄ hn₄ hends
    have hs₅ := hpasses₅.rest hs₄
    obtain ⟨_, s₆, hok₆, hpasses₆⟩ :=
      eat_of_mayStand hcomma hs₅ (by rw [front, hlast]; decide)
    obtain ⟨s₇, hok₇, hpasses₇, hs₇⟩ := expect_of_ahead (hpasses₆.rest hs₅) hlast
    obtain ⟨_, t, hok₈, hpasses₈⟩ := eat_of_mayStand hsemicolon hs₇ hrest
    have hpiecewise : g.piecewise bound s =
        .ok (.piecewise ⟨first.span.start, s₇.before⟩ branches' otherwise') s₇ := by
      rw [piecewise, bind_of_ok hok₁, bind_of_ok hok₂, bind_of_ok hok₃, bind_of_ok hok₄,
        bind_of_ok hok₅, bind_of_ok hok₆, bind_of_ok hok₇]
      rfl
    refine ⟨.piecewise ⟨first.span.start, s₇.before⟩ branches' otherwise', t, ?_, ?_,
      hpasses₁.trans (hpasses₂.trans (hpasses₃.trans (hpasses₄.trans (hpasses₅.trans
        (hpasses₆.trans (hpasses₇.trans hpasses₈))))))⟩
    · rw [Grammar.body, kind_bind, current_of_ahead hs, hfirst]
      simp only [bind_of_ok hpiecewise, bind_of_ok hok₈]
      rfl
    · simp only [Body.bare, hbare₂, hbare₅]

/-- A declaration is read as it is written, its number apart, if no semicolon follows it. -/
theorem declaration_of_written (hg : g.HasExpressions)
    (hgt : g.typeOpening? = standardTypeOpening?) {d : Declaration} (h : d.Written text)
    (hs : s.ahead = text ++ rest) (hn : s.ahead.length ≤ bound) (hrest : front rest ≠ .semicolon) :
    ∃ d' t, g.declarationWithin bound s = .ok d' t ∧ d'.unnumbered = d.unnumbered ∧
      s.Passes text t := by
  cases h with
  | @intro number span parameters returns body inside behind bodyText fnToken name first last arrow
      hfn hname hfirst hlast harrow h listed hreturns hbody =>
    have hs : s.ahead = fnToken :: name :: first ::
        (inside ++ last :: arrow :: (behind ++ (bodyText ++ rest))) := by simpa using hs
    obtain ⟨s₁, hok₁, hpasses₁, hs₁⟩ := expect_of_ahead hs hfn
    obtain ⟨s₂, hok₂, hpasses₂, hs₂⟩ := advance_of_ahead hs₁
    have hok₂ : expectOr .identifier
        (misplacedBecause "expected identifier in function declaration") s₁ = .ok name s₂ := by
      cases hok₂
      exact expectOr_of_kind hname
    obtain ⟨s₃, hok₃, hpasses₃, hs₃⟩ := expect_of_ahead hs₂ hfirst
    have hn₃ : s₃.ahead.length ≤ bound :=
      hpasses₃.length_le (hpasses₂.length_le (hpasses₁.length_le hn))
    have hparameters : ∃ ps t, separated (g.parameter bound) .closeParen bound s₃ = .ok ps t ∧
        ps.map Param.bare = parameters.map (fun p => p.1.bare) ∧ s₃.Passes inside t :=
      separated_of_listed (by decide) listed (fun p hp => front_of_parameter (h p hp))
        (fun p hp s rest hs hn _ => parameter_of_written hgt (h p hp) hs hn) hs₃ hlast hn₃ hn₃
    obtain ⟨parameters', s₄, hok₄, hbare₄, hpasses₄⟩ := hparameters
    obtain ⟨s₅, hok₅, hpasses₅, hs₅⟩ := expect_of_ahead (hpasses₄.rest hs₃) hlast
    obtain ⟨s₆, hok₆, hpasses₆, hs₆⟩ := expect_of_ahead hs₅ harrow
    have hn₆ : s₆.ahead.length ≤ bound :=
      hpasses₆.length_le (hpasses₅.length_le (hpasses₄.length_le hn₃))
    obtain ⟨returns', s₇, hok₇, hbare₇, hpasses₇⟩ :=
      readsType_of_written hgt hreturns bound s₆ _ hs₆ hn₆
    obtain ⟨body', t, hok₈, hbare₈, hpasses₈⟩ :=
      body_of_written hg hbody (hpasses₇.rest hs₆) (hpasses₇.length_le hn₆) hrest
    refine ⟨⟨0, name.value, parameters', returns', body', ⟨fnToken.span.start, t.before⟩⟩, t, ?_,
      ?_, ?_⟩
    · rw [declarationWithin, bind_of_ok hok₁, bind_of_ok hok₂, bind_of_ok hok₃, bind_of_ok hok₄,
        bind_of_ok hok₅, bind_of_ok hok₆, bind_of_ok hok₇, bind_of_ok hok₈]
      rfl
    · simp only [Declaration.bare, Declaration.unnumbered, hbare₄, hbare₇, hbare₈, List.map_map]
      rfl
    · simpa using hpasses₁.trans (hpasses₂.trans (hpasses₃.trans (hpasses₄.trans
        (hpasses₅.trans (hpasses₆.trans (hpasses₇.trans hpasses₈))))))

theorem front_of_declaration {d : Declaration} (h : d.Written text) :
    text ≠ [] ∧ front text = .fn := by
  cases h with
  | intro hfn => simp [front, hfn]

/-- Declarations are read up to the end of the source. -/
theorem declarations_of_written (hg : g.HasExpressions)
    (hgt : g.typeOpening? = standardTypeOpening?) {ds : List Declaration}
    (h : InTurn Declaration.Written ds text) (hs : s.ahead = text) (hn : s.ahead.length ≤ n)
    (hbound : s.ahead.length ≤ bound) :
    ∃ ds' t, g.declarations bound n s = .ok ds' t ∧
      ds'.map Declaration.unnumbered = ds.map Declaration.unnumbered := by
  induction h generalizing n s with
  | nil =>
    refine ⟨[], s, ?_, rfl⟩
    cases n with
    | zero => rfl
    | succ n =>
      have hend : s.current.kind = .eof := by rw [kind_current, hs]; rfl
      rw [declarations, kind_bind, if_pos hend]
      rfl
  | @cons d ds declarationText behind hd k ih =>
    obtain ⟨hne, hfront⟩ := front_of_declaration hd
    have hpos : 0 < declarationText.length := List.length_pos_iff.mpr hne
    have hrest : front behind ≠ .semicolon := by
      cases k with
      | nil => decide
      | cons hnext _ =>
        obtain ⟨hne, hfront⟩ := front_of_declaration hnext
        rw [front_append hne, hfront]
        decide
    obtain ⟨d', s₁, hok₁, hbare₁, hpasses₁⟩ := declaration_of_written hg hgt hd hs hbound hrest
    cases n with
    | zero =>
      rw [hs, List.length_append] at hn
      omega
    | succ n =>
      obtain ⟨ds', t, hok₂, hbare₂⟩ := ih (hpasses₁.rest hs) (hpasses₁.length_le_pred hpos hn)
        (hpasses₁.length_le hbound)
      have hkind : s.current.kind ≠ .eof := by
        rw [kind_current, hs, front_append hne, hfront]
        decide
      refine ⟨d' :: ds', t, ?_, ?_⟩
      · rw [declarations, kind_bind, if_neg hkind, bind_of_ok hok₁, bind_of_ok hok₂]
        rfl
      · rw [List.map_cons, List.map_cons, hbare₁, hbare₂]

end Declarations

end Grammar

/-- Numbering gives the same declarations, spans apart, where only numbers and spans differ. -/
theorem Program.bare_numberedFrom (first : Nat) (p : Program) :
    (p.numberedFrom first).declarations.map Declaration.bare =
      (p.declarations.map Declaration.unnumbered).mapIdx
        fun i d => { d with number := first + i } := by
  refine List.ext_getElem (by simp [numberedFrom]) fun i _ _ => ?_
  simp [numberedFrom, Declaration.bare, Declaration.unnumbered]

namespace Grammar

section Programs

variable {g : Grammar} {s t : TokenStream} {p : Program}

/-- A program is read by reading its declarations and numbering them. -/
theorem program_eq_ok_iff :
    g.program s = .ok p t ↔ ∃ ds, g.declarations s.ahead.length s.ahead.length s = .ok ds t ∧
      p = Program.numberedFrom 0 ⟨ds, ⟨s.current.span.start, t.current.span.start⟩⟩ := by
  have hrun : g.program s = (g.declarations s.ahead.length s.ahead.length >>= fun ds => do
      return Program.numberedFrom 0 ⟨ds, ⟨s.current.span.start, ← position⟩⟩) s := rfl
  rw [hrun, bind_eq_ok_iff]
  constructor
  · intro h
    obtain ⟨ds, u, hok, h⟩ := h
    cases h
    exact ⟨ds, hok, rfl⟩
  · intro h
    obtain ⟨ds, hok, rfl⟩ := h
    exact ⟨ds, t, hok, rfl⟩

/-- A text of the declarations of a program is read as these, numbered in order. -/
theorem program_of_written (hg : g.HasExpressions) (hgt : g.typeOpening? = standardTypeOpening?)
    (h : InTurn Declaration.Written p.declarations s.ahead) :
    ∃ q t, g.program s = .ok q t ∧ q.declarations.map Declaration.bare =
      (p.numberedFrom 0).declarations.map Declaration.bare := by
  obtain ⟨ds, t, hok, hsame⟩ :=
    declarations_of_written hg hgt h rfl (Nat.le_refl _) (Nat.le_refl _)
  refine ⟨_, t, program_eq_ok_iff.mpr ⟨ds, hok, rfl⟩, ?_⟩
  rw [Program.bare_numberedFrom, Program.bare_numberedFrom, hsame]

/-- What is ahead where a program is read is a text of its declarations, whatever their numbers. -/
theorem program_written (hg : g.HasExpressions) (hgt : g.typeOpening? = standardTypeOpening?)
    (honly : ∀ token ∈ s.ahead, token.kind ≠ .eof) (h : g.program s = .ok p t) :
    InTurn Declaration.Written p.declarations s.ahead := by
  obtain ⟨ds, hok, rfl⟩ := program_eq_ok_iff.mp h
  exact inTurn_mapIdx
    (declarations_written hg hgt (Nat.le_refl _) (Nat.le_refl _) honly hok)

end Programs

end Grammar

end Piecewise
