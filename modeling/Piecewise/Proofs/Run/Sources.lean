import Piecewise.Proofs.Grammar.CompleteProgram
import Piecewise.Proofs.Grammar.Replaced
import Piecewise.Run.Program

/-!
# Several sources and one

Reading sources one after the other gives the declarations of the source that has their texts with
newlines between them. What carries this is that a program is spelled by the text read so far: the
text is cut into tokens that are a text of the declarations, wherever the tokens stand.
-/

namespace Piecewise

namespace Program

/-- The program has the declarations that a text spells. -/
def SpelledBy (p : Program) (text : String) : Prop :=
  ∃ tokens, InTurn Declaration.Written p.declarations tokens ∧
    Spells text.toList (tokens.map Token.word)

section Spelled

variable {p q : Program} {source : Source} {read : String}

/-- An empty text spells no declarations. -/
theorem spelledBy_empty (span : Span) : (Program.mk [] span).SpelledBy "" :=
  ⟨[], .nil, spells_nil⟩

theorem ahead_ofTokens (file : String) (tokens : List Token) (place : Position) :
    (TokenStream.ofTokens file (tokens ++ [.eofAt place])).ahead = tokens := by
  simp [TokenStream.ofTokens, Token.eofAt]

/-- A source spells the program that is read from it. -/
theorem spelledBy_of_ofSource (h : ofSource source = .ok p) : p.SpelledBy source.text := by
  obtain ⟨tokens, t, htokens, hrun⟩ := ofSource_eq_ok_iff.mp h
  obtain ⟨text, place, rfl, hspells, hinside⟩ := spells_of_tokens htokens
  have hahead := ahead_ofTokens source.name text place
  have hwritten := Grammar.program_written Grammar.standard_hasExpressions rfl
    (by rw [hahead]; exact hinside) hrun
  rw [hahead] at hwritten
  exact ⟨text, hwritten, hspells⟩

/-- A source that spells declarations is read as these, whatever its name is. -/
theorem ofSource_of_spelledBy (source : Source) (h : p.SpelledBy source.text) :
    ∃ q, ofSource source = .ok q ∧ q.declarations.map Declaration.bare =
      (p.numberedFrom 0).declarations.map Declaration.bare := by
  obtain ⟨tokens, hwritten, hspells⟩ := h
  obtain ⟨text, place, htokens, hwords, _⟩ := hspells.tokens
  have hreplaced : InTurn Declaration.Written p.declarations text :=
    hwritten.replace (fun d _ _ hd hsame => Declaration.Written.replace hd hsame) hwords
  rw [← ahead_ofTokens source.name text place] at hreplaced
  obtain ⟨q, t, hrun, hbare⟩ :=
    Grammar.program_of_written Grammar.standard_hasExpressions rfl hreplaced
  exact ⟨q, ofSource_eq_ok_iff.mpr ⟨_, t, htokens, hrun⟩, hbare⟩

/-- Two programs in one are spelled by their texts with a newline between these. -/
theorem SpelledBy.append {text : String} (h : p.SpelledBy read) (k : q.SpelledBy text) :
    (p.append q).SpelledBy (read ++ "\n" ++ text) := by
  obtain ⟨tokens, hwritten, hspells⟩ := h
  obtain ⟨tokens', hwritten', hspells'⟩ := k
  refine ⟨tokens ++ tokens', hwritten.append hwritten', ?_⟩
  have hlist : (read ++ "\n" ++ text).toList = read.toList ++ '\n' :: text.toList := by simp
  rw [hlist, List.map_append]
  exact hspells.join hspells'

/-- What a program is extended with is spelled behind the text that spells the program. -/
theorem SpelledBy.extendWith {sources : List Source}
    (h : ∀ source ∈ sources, ∃ q, ofSource source = .ok q) (k : p.SpelledBy read) :
    ∃ q, p.extendWith sources = .ok q ∧
      q.SpelledBy ("\n".intercalate (read :: sources.map Source.text)) := by
  induction sources generalizing p read with
  | nil => exact ⟨p, rfl, k⟩
  | cons source sources ih =>
    obtain ⟨⟨next, hnext⟩, hrest⟩ := List.forall_mem_cons.mp h
    obtain ⟨q, hq, hspelled⟩ := ih hrest (k.append (spelledBy_of_ofSource hnext))
    refine ⟨q, ?_, hspelled⟩
    rw [Program.extendWith, hnext]
    exact hq

end Spelled

/-- Sources that are accepted one by one are accepted with newlines between their texts, as one
source of any name: it has tokens, and the program read from them has the same declarations in the
same order, spans apart. -/
theorem ofSources_eq_ofSource (file : String) (sources : List Source)
    (h : ∀ source ∈ sources, ∃ p, ofSource source = .ok p) :
    ∃ tokens p q, (Source.mk file ("\n".intercalate (sources.map Source.text))).tokens =
        .ok tokens ∧
      ofSources sources = .ok p ∧
      ofSource ⟨file, "\n".intercalate (sources.map Source.text)⟩ = .ok q ∧
      q.declarations.map Declaration.bare = p.declarations.map Declaration.bare := by
  cases sources with
  | nil =>
    have hempty : (Program.mk [] default).SpelledBy "" := spelledBy_empty default
    obtain ⟨p, hp, hbare⟩ := ofSource_of_spelledBy { Source.prelude with text := "" } hempty
    obtain ⟨q, hq, hbare'⟩ := ofSource_of_spelledBy ⟨file, ""⟩ hempty
    obtain ⟨tokens, _, htokens, _⟩ := ofSource_eq_ok_iff.mp hq
    exact ⟨tokens, p, q, htokens, hp, hq, hbare'.trans hbare.symm⟩
  | cons source sources =>
    obtain ⟨⟨first, hfirst⟩, hrest⟩ := List.forall_mem_cons.mp h
    obtain ⟨p, hp, hspelled⟩ := (spelledBy_of_ofSource hfirst).extendWith hrest
    obtain ⟨q, hq, hbare⟩ := ofSource_of_spelledBy
      ⟨file, "\n".intercalate ((source :: sources).map Source.text)⟩ hspelled
    obtain ⟨tokens, _, htokens, _⟩ := ofSource_eq_ok_iff.mp hq
    refine ⟨tokens, p.numberedFrom 0, q, htokens, ?_, hq, hbare⟩
    rw [ofSources, hfirst]
    change (do return (← first.extendWith sources).numberedFrom 0) = _
    rw [hp]
    rfl

section Comment

theorem exists_ok_of_isOk {ε α : Type} {r : Except ε α} (h : r.isOk = true) : ∃ a, r = .ok a := by
  cases r with
  | ok a => exact ⟨a, rfl⟩
  | error e => cases h

/-- Two sources: the first ends with a comment, and no newline behind it, and the body before the
comment has no semicolon. -/
def commentSources : List Source :=
  [⟨"signs", "fn negative(x: real) -> bool \x7b x < 0 => true, else => false \x7d // no newline"⟩,
    ⟨"main", "fn main() -> bool = negative(-2);"⟩]

/-- The comment hides nothing of the second source: both functions are read. -/
theorem ofSources_eq_ofSource_commentSources :
    (∀ source ∈ commentSources, ∃ p, ofSource source = .ok p) ∧
      ∃ tokens p q,
        (Source.mk "joined" ("\n".intercalate (commentSources.map Source.text))).tokens =
          .ok tokens ∧
        ofSources commentSources = .ok p ∧
        ofSource ⟨"joined", "\n".intercalate (commentSources.map Source.text)⟩ = .ok q ∧
        q.declarations.map Declaration.bare = p.declarations.map Declaration.bare ∧
        p.declarations.map (fun d => (d.name, d.signature)) =
          [("negative", .function [⟨"x", .real⟩] .boolean), ("main", .function [] .boolean)] := by
  have haccepted : ∀ source ∈ commentSources, ∃ p, ofSource source = .ok p := by
    have hall : ∀ source ∈ commentSources, (ofSource source).isOk = true := by decide +kernel
    exact fun source hmem => exists_ok_of_isOk (hall source hmem)
  have hread : ((ofSources commentSources).toOption.map fun p =>
      p.declarations.map fun d => (d.name, d.signature)) =
      some [("negative", .function [⟨"x", .real⟩] .boolean), ("main", .function [] .boolean)] := by
    decide +kernel
  obtain ⟨tokens, p, q, htokens, hp, hq, hbare⟩ :=
    ofSources_eq_ofSource "joined" commentSources haccepted
  rw [hp] at hread
  exact ⟨haccepted, tokens, p, q, htokens, hp, hq, hbare, Option.some.inj hread⟩

end Comment

end Program

end Piecewise
