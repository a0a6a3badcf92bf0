import Piecewise.Proofs.Run.Sources
import Piecewise.Proofs.Token.Layout

/-!
# Programs in another layout

A program is told by the words that its source spells. These are the same whatever white space and
comments stand between the lexemes, so a source in another layout is accepted or not as it was, and
gives the same declarations, spans apart.
-/

namespace Piecewise

namespace Program

variable {p : Program} {source other : Source} {words : List (TokenKind × String)}

theorem numberedFrom_numberedFrom (p : Program) (first : Nat) :
    (p.numberedFrom first).numberedFrom first = p.numberedFrom first := by
  simp only [numberedFrom, List.mapIdx_mapIdx]
  rfl

/-- The declarations that are read from a source are numbered in order. -/
theorem numbered_of_ofSource (h : ofSource source = .ok p) : p.numberedFrom 0 = p := by
  obtain ⟨_, _, _, hrun⟩ := ofSource_eq_ok_iff.mp h
  obtain ⟨ds, _, rfl⟩ := Grammar.program_eq_ok_iff.mp hrun
  exact numberedFrom_numberedFrom _ 0

/-- A source that spells what an accepted one spells is accepted, and has its declarations, spans
apart. -/
theorem ofSource_of_spells (h : Spells source.text.toList words)
    (k : Spells other.text.toList words) (hp : ofSource source = .ok p) :
    ∃ q, ofSource other = .ok q ∧
      q.declarations.map Declaration.bare = p.declarations.map Declaration.bare := by
  obtain ⟨tokens, hwritten, hspells⟩ := spelledBy_of_ofSource hp
  have hspelled : p.SpelledBy other.text := ⟨tokens, hwritten, hspells.unique h ▸ k⟩
  obtain ⟨q, hq, hbare⟩ := ofSource_of_spelledBy other hspelled
  rw [numbered_of_ofSource hp] at hbare
  exact ⟨q, hq, hbare⟩

/-- The words of the tokens of a source are those that it spells, with the end behind them. -/
theorem map_word_of_tokens {tokens : List Token} (h : Spells source.text.toList words)
    (htokens : source.tokens = .ok tokens) : tokens.map Token.word = words ++ [(.eof, "EOF")] := by
  obtain ⟨text, place, htokens', rfl, _⟩ := h.tokens
  rw [Except.ok.inj (htokens.symm.trans htokens'), List.map_append]
  rfl

/-- A source that has tokens is cut into segments, of which some make a token. Where the lexemes of
its tokens are written in order with any layout between them, and with or without layout at both
ends, the text has tokens of the same kinds and values in the same order. It is accepted as a
program exactly if the source is, and the programs have the same declarations in the same order,
spans apart. -/
theorem ofSource_laidOut (source : Source) {tokens : List Token} (h : source.tokens = .ok tokens) :
    ∃ segments, Segmentation source.text.toList segments [] ∧
      tokens = Segment.tokens source.name [] segments ∧
      ∀ other : Source, LaidOut (Segment.lexemes segments) other.text.toList →
        (∃ tokens', other.tokens = .ok tokens' ∧
          tokens'.map Token.word = tokens.map Token.word) ∧
        ((∃ p, ofSource source = .ok p) ↔ ∃ q, ofSource other = .ok q) ∧
        ∀ p q, ofSource source = .ok p → ofSource other = .ok q →
          q.declarations.map Declaration.bare = p.declarations.map Declaration.bare := by
  obtain ⟨segments, hcut, htokens⟩ := tokens_eq_ok_iff.mp h
  refine ⟨segments, hcut, htokens, fun other hlaid => ?_⟩
  have hspells : Spells source.text.toList (Segment.words segments) := ⟨segments, hcut, rfl⟩
  have hother : Spells other.text.toList (Segment.words segments) := hcut.spells_of_laidOut hlaid
  refine ⟨?_, ⟨?_, ?_⟩, ?_⟩
  · obtain ⟨text, place, htokens', _⟩ := hother.tokens
    refine ⟨_, htokens', ?_⟩
    rw [map_word_of_tokens hspells h, map_word_of_tokens hother htokens']
  · rintro ⟨p, hp⟩
    obtain ⟨q, hq, _⟩ := ofSource_of_spells hspells hother hp
    exact ⟨q, hq⟩
  · rintro ⟨q, hq⟩
    obtain ⟨p, hp, _⟩ := ofSource_of_spells hother hspells hq
    exact ⟨p, hp⟩
  · intro p q hp hq
    obtain ⟨q', hq', hbare⟩ := ofSource_of_spells hspells hother hp
    rw [← Except.ok.inj (hq.symm.trans hq')] at hbare
    exact hbare

section Dense

/-- A source with as little layout as can be, a comment at its end that no newline ends, and a text
that looks like a comment. -/
def denseSource : Source :=
  ⟨"dense", "fn same(x:real)->bool=x<=-2;fn main()->bool=same(1)or\"a //b\"==\"\\\"\";//end"⟩

/-- Spread out with a comment in every gap, the source still declares both functions. -/
theorem ofSource_laidOut_dense :
    (∃ tokens, denseSource.tokens = .ok tokens) ∧
      ∃ segments, Segmentation denseSource.text.toList segments [] ∧
        ∃ p q, ofSource denseSource = .ok p ∧
          ofSource ⟨"spread", String.ofList
            (spread " // aside\n ".toList (Segment.lexemes segments))⟩ = .ok q ∧
          q.declarations.map Declaration.bare = p.declarations.map Declaration.bare ∧
          p.declarations.map (fun d => (d.name, d.signature)) =
            [("same", .function [⟨"x", .real⟩] .boolean), ("main", .function [] .boolean)] := by
  have hread : ((ofSource denseSource).toOption.map fun p =>
      p.declarations.map fun d => (d.name, d.signature)) =
      some [("same", .function [⟨"x", .real⟩] .boolean), ("main", .function [] .boolean)] := by
    decide +kernel
  obtain ⟨p, hp⟩ : ∃ p, ofSource denseSource = .ok p := exists_ok_of_isOk (by decide +kernel)
  obtain ⟨tokens, _, htokens, _⟩ := ofSource_eq_ok_iff.mp hp
  obtain ⟨segments, hcut, _, hlaid⟩ := ofSource_laidOut denseSource htokens
  have haside : Layout " // aside\n ".toList := by
    have hline : '\n' ∉ " aside".toList := by decide
    exact .mk rfl (.comment hline (.blank rfl .nil))
  have hspread : LaidOut (Segment.lexemes segments)
      (String.ofList (spread " // aside\n ".toList (Segment.lexemes segments))).toList := by
    rw [String.toList_ofList]
    exact laidOut_spread haside _
  obtain ⟨_, hiff, hbare⟩ := hlaid ⟨"spread", _⟩ hspread
  obtain ⟨q, hq⟩ := hiff.mp ⟨p, hp⟩
  have hsame := hbare p q hp hq
  rw [hp] at hread
  exact ⟨⟨tokens, htokens⟩, segments, hcut, p, q, hp, hq, hsame, Option.some.inj hread⟩

end Dense

end Program

end Piecewise
