import Piecewise.Proofs.Grammar.Spans
import Piecewise.Proofs.Token.Places

/-!
# The spans of programs

The tokens of a source stand in order, so all nodes of a program that is read from them are placed:
each starts where a token does, and its parts stand one behind the other inside it. A source that is
no program is refused at one of its tokens or at its end.
-/

namespace Piecewise

open Piecewise.Parser Piecewise.Span Piecewise.TokenStream

namespace Grammar

variable {g : Grammar} {S : Position → Prop} {fin : Position} {s : TokenStream} {bound n : Nat}

theorem parameter_reads (g : Grammar) (bound : Nat) (hs : s.Ordered S fin) :
    Reads S fin (g.parameter bound) s (One Param.span (Param.Nodes (Placed S)) s.here) := by
  refine (expect_reads hs (by decide)).bind fun name s₁ hs₁ hname => ?_
  refine (expect_reads hs₁ (by decide)).bind fun colon s₂ hs₂ hcolon => ?_
  refine (typeWithin_reads g bound hs₂).bind fun type t ht htype => .stopped ht ?_
  have hbefore : s₁.before ≤ s₂.here :=
    le_trans hs₁.before_le (le_trans hcolon.le hs₂.before_le)
  exact one_of_first hname rfl (htype.2.mono hbefore (le_refl _)) fun h => ⟨h, htype.1⟩

section Bodies

variable (hg : g.HasExpressions)

include hg

/-- A branch spans from its guard to its action, without the comma behind it. -/
theorem branch_reads (hs : s.Ordered S fin) :
    Reads S fin (g.branch bound) s (One Branch.span (Branch.Nodes (Placed S)) s.here) := by
  refine (exprWithin_reads hg bound .default s hs).bind fun guard s₁ hs₁ hguard => ?_
  refine (expect_reads hs₁ (by decide)).bind fun arrow s₂ hs₂ harrow => ?_
  refine (exprWithin_reads hg bound .default s₂ hs₂).bind fun action s₃ hs₃ haction => ?_
  refine (expect_reads hs₃ (by decide)).bind fun comma t ht hcomma => .pure ht ?_
  obtain ⟨hnodes, hstart, hordered, hstop⟩ := hguard
  obtain ⟨hnodes', hstart', hordered', hstop'⟩ := haction
  have hbetween : guard.span.stop ≤ action.span.start := le_trans hstop
    (le_trans hs₁.before_le (le_trans harrow.le (le_trans hs₂.before_le hstart')))
  have hparts : Between guard.span.start [guard.span, action.span] action.span.stop :=
    ⟨le_refl _, hordered, hbetween, hordered', le_refl _⟩
  have hbehind : action.span.stop ≤ t.before :=
    le_trans hstop' (le_trans hs₃.before_le hcomma.le)
  obtain ⟨_, hroot⟩ := hnodes.root
  exact one_of_parts rfl hroot.start hstart hbehind hparts fun h =>
    ⟨h, hnodes, hnodes'⟩

theorem branches_reads (hs : s.Ordered S fin) :
    Reads S fin (g.branches bound n) s (Many Branch.span (Branch.Nodes (Placed S)) s.here) := by
  induction n generalizing s with
  | zero => exact unexpectedBecause_reads hs _
  | succ n ih =>
    rw [branches]
    refine .byKind ?_
    split
    · exact .pure hs (.nil (le_refl _))
    · exact unexpectedBecause_reads hs _
    · exact unexpectedBecause_reads hs _
    · refine (branch_reads hg hs).bind fun first s₁ hs₁ hfirst => ?_
      refine (ih hs₁).bind fun rest t ht hrest => .pure ht ?_
      exact .cons hfirst hs₁.before_le hrest

abbrev OneBody (S : Position → Prop) : Position → Body → TokenStream → Prop :=
  One Body.span (Body.Nodes (Placed S))

theorem piecewise_reads (hs : s.Ordered S fin) :
    Reads S fin (g.piecewise bound) s (OneBody S s.here) := by
  refine (expect_reads hs (by decide)).bind fun opening s₁ hs₁ hopening => ?_
  refine (branches_reads hg hs₁).bind fun guarded s₂ hs₂ hguarded => ?_
  refine (expect_reads hs₂ (by decide)).bind fun elseToken s₃ hs₃ helse => ?_
  refine (expect_reads hs₃ (by decide)).bind fun arrow s₄ hs₄ harrow => ?_
  refine (exprWithin_reads hg bound .default s₄ hs₄).bind fun otherwise s₅ hs₅ hotherwise => ?_
  refine (eat_reads hs₅ (by decide)).bind fun _ s₆ hs₆ hcomma => ?_
  refine (expect_reads hs₆ (by decide)).bind fun closing t ht hclosing => .stopped ht ?_
  have hbetween : s₂.here ≤ s₄.here :=
    le_trans helse.le (le_trans hs₃.before_le (le_trans harrow.le hs₄.before_le))
  have hbehind : s₅.before ≤ t.before :=
    le_trans hcomma (le_trans hs₆.before_le hclosing.le)
  have hparts : Between s₁.before (guarded.map Branch.span ++ [otherwise.span]) t.before :=
    (hguarded.2.mono hs₁.before_le hbetween).append (hotherwise.2.mono (le_refl _) hbehind)
  exact one_of_first hopening rfl hparts fun h => .piecewise h hguarded.1 hotherwise.1

theorem body_reads (hs : s.Ordered S fin) :
    Reads S fin (g.body bound) s (OneBody S s.here) := by
  rw [body]
  refine .byKind ?_
  split
  · rename_i hcurrent
    refine (advance_reads hs (by rw [hcurrent]; decide)).bind fun _ s₁ hs₁ htakes => ?_
    refine (exprWithin_reads hg bound .default s₁ hs₁).bind fun value s₂ hs₂ hvalue => ?_
    refine (expect_reads hs₂ (by decide)).bind fun _ t ht hsemicolon => .pure ht ?_
    have hbefore : s.here ≤ s₁.here := le_trans htakes.2.le hs₁.before_le
    have hbehind : s₂.before ≤ t.before := le_trans hs₂.before_le hsemicolon.le
    exact ⟨.inline hvalue.1, hvalue.2.mono hbefore hbehind⟩
  · refine (piecewise_reads hg hs).bind fun body s₁ hs₁ hbody => ?_
    refine (eat_reads hs₁ (by decide)).bind fun _ t ht hsemicolon => .pure ht ?_
    exact ⟨hbody.1, hbody.2.mono (le_refl _) hsemicolon⟩
  · exact unexpectedBecause_reads hs _

theorem declarationWithin_reads (hs : s.Ordered S fin) :
    Reads S fin (g.declarationWithin bound) s
      (One Declaration.span (Declaration.Nodes (Placed S)) s.here) := by
  refine (expect_reads hs (by decide)).bind fun opening s₁ hs₁ hopening => ?_
  refine (expectOr_reads hs₁ (by decide) rfl).bind fun name s₂ hs₂ hname => ?_
  refine (expect_reads hs₂ (by decide)).bind fun _ s₃ hs₃ hopen => ?_
  refine (separated_reads (fun s => parameter_reads g bound) hs₃).bind
    fun parameters s₄ hs₄ hparameters => ?_
  refine (expect_reads hs₄ (by decide)).bind fun _ s₅ hs₅ hclose => ?_
  refine (expect_reads hs₅ (by decide)).bind fun _ s₆ hs₆ harrow => ?_
  refine (typeWithin_reads g bound hs₆).bind fun returns s₇ hs₇ hreturns => ?_
  refine (body_reads hg hs₇).bind fun body t ht hbody => .stopped ht ?_
  have hbefore : s₁.before ≤ s₃.here := le_trans hs₁.before_le (le_trans hname.le
    (le_trans hs₂.before_le (le_trans hopen.le hs₃.before_le)))
  have hbetween : s₄.here ≤ s₆.here :=
    le_trans hclose.le (le_trans hs₅.before_le (le_trans harrow.le hs₆.before_le))
  have hparts : Between s₁.before
      (parameters.map Param.span ++ ([returns.span] ++ [body.span])) t.before :=
    (hparameters.2.mono hbefore hbetween).append
      ((hreturns.2.mono (le_refl _) hs₇.before_le).append hbody.2)
  exact one_of_first hopening rfl hparts fun h => ⟨h, hparameters.1, hreturns.1, hbody.1⟩

theorem declarations_reads (hs : s.Ordered S fin) :
    Reads S fin (g.declarations bound n) s
      (Many Declaration.span (Declaration.Nodes (Placed S)) s.here) := by
  induction n generalizing s with
  | zero => exact .pure hs (.nil (le_refl _))
  | succ n ih =>
    rw [declarations]
    refine .byKind ?_
    split
    · exact .pure hs (.nil (le_refl _))
    · refine (declarationWithin_reads hg hs).bind fun first s₁ hs₁ hfirst => ?_
      refine (ih hs₁).bind fun rest t ht hrest => .pure ht ?_
      exact .cons hfirst hs₁.before_le hrest

/-- The parts of a program nest in it, and all nodes of its declarations are placed. -/
theorem program_reads (hs : s.Ordered S fin) :
    Reads S fin g.program s fun p _ =>
      p.span.Nests (p.declarations.map Declaration.span) ∧
        ∀ d ∈ p.declarations, d.Nodes (Placed S) := by
  change Reads S fin (do
    let declarations ← g.declarations s.ahead.length s.ahead.length
    let stop ← position
    return Program.numberedFrom 0 ⟨declarations, ⟨s.here, stop⟩⟩) s _
  refine (declarations_reads hg hs).bind fun declarations t ht hdeclarations => ?_
  obtain ⟨hnodes, hbetween⟩ := hdeclarations
  refine ⟨ht, ?_, Program.nodes_numberedFrom hnodes 0⟩
  rw [Program.spans_numberedFrom]
  have hnests : Span.Nests ⟨s.here, t.here⟩ (declarations.map Declaration.span) :=
    Between.nests hbetween
  exact hnests

end Bodies

end Grammar

section Sources

variable {source : Source} {tokens : List Token} {d : Diagnostic} {p : Program}

/-- Tokens in order stand one behind the other before the last of them. -/
theorem between_of_inOrder {lo : Position} {text : List Token} {last : Token}
    (h : Token.InOrder (text ++ [last])) (hlo : ∀ t ∈ text ++ [last], lo ≤ t.span.start) :
    Between lo (text.map Token.span) last.span.start := by
  induction text generalizing lo with
  | nil => exact hlo last (by simp)
  | cons t text ih =>
    obtain ⟨hfirst, hrest⟩ := List.pairwise_cons.mp h
    obtain ⟨hwidth, _⟩ := hfirst last (by simp)
    exact ⟨hlo t (by simp), le_of_lt hwidth, ih hrest fun u hu => (hfirst u hu).2⟩

/-- The stream of the tokens of a source is in order. -/
theorem ordered_of_tokens (h : source.tokens = .ok tokens) :
    ∃ fin, (TokenStream.ofTokens source.name tokens).Ordered source.Starts fin ∧
      ∃ t ∈ tokens, t.span.start = fin := by
  have horder := inOrder_of_tokens h
  have hfirst : ∀ t ∈ tokens, Position.first source.name ≤ t.span.start := by
    obtain ⟨segments, _, rfl⟩ := tokens_eq_ok_iff.mp h
    exact fun t ht => Segment.le_start_of_mem_tokens ht
  obtain ⟨text, place, rfl, _, hkinds⟩ := spells_of_tokens h
  have hstarts : ∀ t ∈ text, source.Starts t.span.start := fun t ht =>
    ⟨_, h, t, List.mem_append_left _ ht, hkinds t ht, rfl⟩
  refine ⟨place, ?_, .eofAt place, by simp, rfl⟩
  simp only [TokenStream.ofTokens, List.getLast?_concat, Token.eofAt, if_true, List.dropLast_concat]
  exact ⟨between_of_inOrder horder hfirst, hstarts, rfl⟩

theorem ofSource_of_tokens (h : source.tokens = .ok tokens) :
    Program.ofSource source = Program.ofTokens source.name tokens := by
  rw [Program.ofSource, h]
  rfl

/-- All nodes of a program that is read from a source start where one of its tokens does, and their
parts nest in them. -/
theorem placed_of_ofSource (h : Program.ofSource source = .ok p) :
    p.span.Nests (p.declarations.map Declaration.span) ∧
      ∀ d ∈ p.declarations, d.Nodes (Placed source.Starts) := by
  obtain ⟨tokens, t, htokens, hrun⟩ := Program.ofSource_eq_ok_iff.mp h
  obtain ⟨fin, hordered, _⟩ := ordered_of_tokens htokens
  have hreads := Grammar.program_reads Grammar.standard_hasExpressions hordered
  exact (hreads.of_ok hrun).2

/-- In a program that is read from a source, spans nest: every node starts no later than it stops,
its parts lie within it, and of two parts the first one stops no later than the second one starts.
Parentheses make no node and widen none. -/
theorem spans_nest (h : Program.ofSource source = .ok p) : p.Nodes Span.Nests := by
  obtain ⟨hnests, hplaced⟩ := placed_of_ofSource h
  exact ⟨hnests, fun d hd => (hplaced d hd).imply fun _ _ hnode => hnode.nests⟩

section Grouped

/-- Operands in parentheses, and parentheses around all of a body. -/
def grouped : Source := ⟨"grouped", "fn f(a: bool) -> bool =\n  ((a) or (not (a)));"⟩

/-- The body starts behind its two opening parentheses and stops before its last three closing
ones. -/
theorem spans_nest_grouped :
    ∃ p, Program.ofSource grouped = .ok p ∧
      p.declarations.map (fun d => d.body.span) =
        [⟨⟨2, 5, "grouped"⟩, ⟨2, 18, "grouped"⟩⟩] ∧ p.Nodes Span.Nests := by
  have hread : (Program.ofSource grouped).toOption.map
      (fun p => p.declarations.map fun d => d.body.span) =
        some [⟨⟨2, 5, "grouped"⟩, ⟨2, 18, "grouped"⟩⟩] := by decide +kernel
  cases hgrouped : Program.ofSource grouped with
  | error d =>
    rw [hgrouped] at hread
    cases hread
  | ok p =>
    rw [hgrouped] at hread
    exact ⟨p, rfl, Option.some.inj hread, spans_nest hgrouped⟩

end Grouped

/-- Where a diagnostic that refuses a source points: at a token of the source, which may be its end,
or at the character at which cutting it into tokens stops. -/
inductive Source.Refuses (source : Source) (d : Diagnostic) (p : Position) : Prop
  | token {tokens : List Token} {t : Token} (cut : source.tokens = .ok tokens) (mem : t ∈ tokens)
      (start : t.span.start = p)
  | character {segments : List Segment} {c : Char} {rest : List Char}
      (cut : Segmentation source.text.toList segments (c :: rest))
      (unmatched : Lexeme.Unmatched (c :: rest))
      (place : p = placeAfter source.name (Segment.written segments))
      (fault : d.fault = .unrecognisedToken (String.singleton c))

/-- A source that is no program is refused at a place in it. -/
theorem refuses_of_ofSource (h : Program.ofSource source = .error d) :
    ∃ p, d.position = some p ∧ source.name = p.file ∧ source.Refuses d p := by
  cases htokens : source.tokens with
  | error e =>
    rw [Program.ofSource, htokens] at h
    cases h
    obtain ⟨segments, c, rest, hcut, hunmatched, rfl⟩ := tokens_eq_error_iff.mp htokens
    exact ⟨_, rfl, rfl, .character hcut hunmatched rfl rfl⟩
  | ok tokens =>
    obtain ⟨fin, hordered, last, hlast, hfin⟩ := ordered_of_tokens htokens
    have hreads := Grammar.program_reads Grammar.standard_hasExpressions hordered
    have hfile : ∀ t ∈ tokens, source.name = t.span.start.file := by
      obtain ⟨segments, _, rfl⟩ := tokens_eq_ok_iff.mp htokens
      exact fun t ht => (Segment.file_of_mem_tokens ht).symm
    rw [ofSource_of_tokens htokens, Program.ofTokens] at h
    cases hrun : Grammar.standard.program (.ofTokens source.name tokens) with
    | ok q t =>
      rw [hrun] at h
      cases h
    | error e t =>
      rw [hrun] at h
      cases h
      obtain ⟨p, hp, hpoint⟩ := hreads.of_error hrun
      obtain ⟨t, ht, rfl⟩ : ∃ t ∈ tokens, t.span.start = p := by
        rcases hpoint with ⟨tokens', htokens', t, ht, _, hstart⟩ | rfl
        · cases htokens.symm.trans htokens'
          exact ⟨t, ht, hstart⟩
        · exact ⟨last, hlast, hfin⟩
      exact ⟨_, hp, hfile t ht, .token htokens ht rfl⟩

end Sources

end Piecewise
