import Piecewise.Proofs.Run.Sources
import Piecewise.Proofs.Ty.Shown

/-!
# Shown types read back

What a message shows of a type is itself a type as written. Its tokens are those of its parts with
the marks between them, as long as what stands behind does not go on with a word. They are a text of
an annotation, and reading them gives an annotation that means the type, names of parameters aside.
-/

namespace Piecewise

namespace Lexeme

variable {c : Char} {u rest : List Char}

/-- Nothing at the front of the text goes on with a word before it. -/
def StopsWord (rest : List Char) : Prop := ∀ c ∈ rest.head?, continuesWord c = false

theorem forall_head_cons {p : Char → Prop} (h : p c) : ∀ d ∈ (c :: rest).head?, p d := by
  rintro d ⟨⟩
  exact h

theorem first?_word (hc : startsWord c = true) (hu : ∀ d ∈ u, continuesWord d = true)
    (hrest : StopsWord rest) : first? (c :: u ++ rest) = some (word, c :: u, rest) := by
  have hstop : rest.takeWhile continuesWord = [] ∧ rest.dropWhile continuesWord = rest := by
    cases rest with
    | nil => exact ⟨rfl, rfl⟩
    | cons d rest =>
      have hd : continuesWord d = false := hrest d rfl
      simp [hd]
  have hsplit : word.split? (c :: (u ++ rest)) = some (c :: u, rest) := by
    rw [split?, if_pos hc, spanWhile_cons (continuesWord_of_startsWord hc),
      List.takeWhile_append_of_pos hu, List.dropWhile_append_of_pos hu, hstop.1, hstop.2,
      List.append_nil]
  simp [first?, table, hsplit]

end Lexeme

namespace Spells

open Lexeme

variable {rest : List Char} {words : List (TokenKind × String)}

/-- The first lexeme of a text makes the first word, unless it makes none. -/
theorem cut (lexeme : Lexeme) (taken : List Char)
    (h : first? (taken ++ rest) = some (lexeme, taken, rest)) (k : Spells rest words) :
    Spells (taken ++ rest) ((lexeme.token? taken).toList ++ words) := by
  obtain ⟨segments, hcut, rfl⟩ := k
  obtain ⟨hlongest, _⟩ := first?_eq_some_iff.mp h
  exact ⟨⟨lexeme, taken⟩ :: segments, .cut hlongest hlongest.nonempty hcut,
    Segment.words_cons _ _⟩

/-- A name is one word. -/
theorem name {name : String} (c : Char) (u : List Char) (hname : name.toList = c :: u)
    (hc : startsWord c = true) (hu : u.all continuesWord = true)
    (hreserved : TokenKind.reserved? name = none) (hrest : StopsWord rest)
    (k : Spells rest words) : Spells (name.toList ++ rest) ((.identifier, name) :: words) := by
  have hword := k.cut .word (c :: u) (first?_word hc (List.all_eq_true.mp hu) hrest)
  rw [← hname] at hword
  simpa [token?, hreserved] using hword

/-- A blank makes no word, where none stands behind it. -/
theorem blank (hrest : ∀ c ∈ rest.head?, Text.isBlank c = false) (k : Spells rest words) :
    Spells (' ' :: rest) words := by
  have hlongest : Lexeme.blank.Longest [' '] ([' '] ++ rest) :=
    longest_blank (List.cons_ne_nil ' ' []) (List.forall_mem_singleton.mpr (by decide)) hrest
  exact k.cut .blank [' '] (first?_eq_some_iff.mpr ⟨hlongest, rfl⟩)

end Spells

namespace Ty

open Lexeme

mutual

/-- The tokens of a shown type, at no place. -/
def tokens : Ty → List Token
  | list element =>
    .plain .openBracket "[" :: (element.tokens ++ [.plain .closeBracket "]"])
  | function inputs output =>
    .plain .openParen "(" ::
      (inputTokens inputs ++ .plain .closeParen ")" :: .plain .arrow "->" :: output.tokens)
  | other => [.plain .identifier other.shown]

def inputTokens : List (Parameter Ty) → List Token
  | [] => []
  | ⟨_, type⟩ :: rest => type.tokens ++ tokensAfter rest

/-- The tokens of parameters that follow another one. -/
def tokensAfter : List (Parameter Ty) → List Token
  | [] => []
  | ⟨_, type⟩ :: rest => .plain .comma "," :: (type.tokens ++ tokensAfter rest)

end

/-! ## The text of a type is cut into its tokens -/

section Spelled

variable {rest : List Char}

theorem isBlank_initial (k : Kind) : Text.isBlank k.initial = false := by
  cases k <;> decide

/-- The text of a type begins with no blank, so a blank in front of it stands alone. -/
theorem head_shown_not_blank (a : Ty) :
    ∀ c ∈ (a.shown.toList ++ rest).head?, Text.isBlank c = false := by
  obtain ⟨cs, ha⟩ := exists_toList_shown a
  rw [ha]
  exact forall_head_cons (isBlank_initial _)

mutual

/-- The text of a type spells its tokens and then what the text behind it spells. The rest of a type
stands behind each of its parts, so the induction needs any text there that stops a word. -/
theorem spells_shown : ∀ {t : Ty} {rest : List Char} {words : List (TokenKind × String)},
    t.isComplete = true → StopsWord rest → Spells rest words →
      Spells (t.shown.toList ++ rest) (t.tokens.map Token.word ++ words)
  | boolean, _, _, _, hrest, k =>
    k.name 'b' ['o', 'o', 'l'] (by simp [shown]) (by decide) (by decide) (by decide) hrest
  | real, _, _, _, hrest, k =>
    k.name 'r' ['e', 'a', 'l'] (by simp [shown]) (by decide) (by decide) (by decide) hrest
  | integer, _, _, _, hrest, k =>
    k.name 'i' ['n', 't'] (by simp [shown]) (by decide) (by decide) (by decide) hrest
  | text, _, _, _, hrest, k =>
    k.name 's' ['t', 'r', 'i', 'n', 'g'] (by simp [shown]) (by decide) (by decide) (by decide)
      hrest
  | list a, rest, words, h, _, k => by
    have hclose := k.cut (.mark .closeBracket "]") [']'] rfl
    have hstops : StopsWord (']' :: rest) := forall_head_cons (by decide)
    have helement := spells_shown (t := a) h hstops hclose
    have hlist := helement.cut (.mark .openBracket "[") ['['] rfl
    simpa [toList_shown_list, tokens, Token.word, Token.plain, Lexeme.token?] using hlist
  | function ps a, rest, words, h, hrest, k => by
    obtain ⟨hps, ha⟩ := isComplete_function_iff.mp h
    have houtput := spells_shown ha hrest k
    have hblank := houtput.blank (head_shown_not_blank a)
    have harrow := hblank.cut (.mark .arrow "->") ['-', '>'] rfl
    have hbetween := harrow.blank (forall_head_cons (by decide))
    have hclose := hbetween.cut (.mark .closeParen ")") [')'] rfl
    have hstops : StopsWord (')' :: ' ' :: '-' :: '>' :: ' ' :: (a.shown.toList ++ rest)) :=
      forall_head_cons (by decide)
    have hinputs := spells_shownInputs hps hstops hclose
    have hfunction := hinputs.cut (.mark .openParen "(") ['('] rfl
    simpa [toList_shown_function, tokens, Token.word, Token.plain, Lexeme.token?] using hfunction

theorem spells_shownInputs : ∀ {ps : List (Parameter Ty)} {rest : List Char}
    {words : List (TokenKind × String)}, allComplete ps = true → StopsWord rest →
      Spells rest words →
      Spells (shownInputs ps ++ rest) ((inputTokens ps).map Token.word ++ words)
  | [], _, _, _, _, k => k
  | ⟨_, type⟩ :: ps, rest, words, h, hrest, k => by
    obtain ⟨htype, hps⟩ := allComplete_cons_iff.mp h
    obtain ⟨hstops, hafter⟩ := spells_shownAfter hps hrest k
    simpa [shownInputs, inputTokens] using spells_shown htype hstops hafter

/-- Parameters behind another one begin with a comma, if there are any, so they stop its word. -/
theorem spells_shownAfter : ∀ {ps : List (Parameter Ty)} {rest : List Char}
    {words : List (TokenKind × String)}, allComplete ps = true → StopsWord rest →
      Spells rest words →
      StopsWord (shownAfter ps ++ rest) ∧
        Spells (shownAfter ps ++ rest) ((tokensAfter ps).map Token.word ++ words)
  | [], _, _, _, hrest, k => ⟨hrest, k⟩
  | ⟨_, type⟩ :: ps, rest, words, h, hrest, k => by
    obtain ⟨htype, hps⟩ := allComplete_cons_iff.mp h
    obtain ⟨hstops, hafter⟩ := spells_shownAfter hps hrest k
    have htype := spells_shown htype hstops hafter
    have hcomma := (htype.blank (head_shown_not_blank type)).cut (.mark .comma ",") [','] rfl
    refine ⟨forall_head_cons (by decide), ?_⟩
    simpa [shownAfter, tokensAfter, Token.word, Token.plain, Lexeme.token?] using hcomma

end

end Spelled

/-! ## The tokens of a type are a text of an annotation -/

mutual

/-- A type that is known in full is written by its tokens, names of parameters aside. -/
theorem exists_written : ∀ {t : Ty}, t.isComplete = true →
    ∃ e : TypeExpr, e.Written t.tokens ∧ e.toTy = t.nameless
  | boolean, _ => ⟨.primitive default .bool, .primitive rfl rfl, rfl⟩
  | real, _ => ⟨.primitive default .real, .primitive rfl rfl, rfl⟩
  | integer, _ => ⟨.primitive default .int, .primitive rfl rfl, rfl⟩
  | text, _ => ⟨.primitive default .string, .primitive rfl rfl, rfl⟩
  | list a, h => by
    obtain ⟨element, hwritten, htoTy⟩ := exists_written (t := a) h
    exact ⟨.list default element, .list rfl rfl hwritten, congrArg list htoTy⟩
  | function ps a, h => by
    obtain ⟨hps, ha⟩ := isComplete_function_iff.mp h
    obtain ⟨inputs, hinputs, hlisted, hparameters⟩ := exists_writtenInputs hps
    obtain ⟨output, houtput, htoTy⟩ := exists_written ha
    refine ⟨.function default (inputs.map Prod.fst) output,
      .function rfl rfl rfl hinputs hlisted houtput, ?_⟩
    rw [TypeExpr.toTy, nameless, hparameters, htoTy]

theorem exists_writtenInputs : ∀ {ps : List (Parameter Ty)}, allComplete ps = true →
    ∃ inputs : List (TypeExpr × List Token), (∀ input ∈ inputs, input.1.Written input.2) ∧
      Listed Prod.snd inputs (inputTokens ps) ∧
      TypeExpr.toParameters (inputs.map Prod.fst) = namelessAll ps
  | [], _ => ⟨[], nofun, .none, rfl⟩
  | [⟨_, type⟩], h => by
    obtain ⟨e, hwritten, htoTy⟩ := exists_written (allComplete_cons_iff.mp h).1
    refine ⟨[(e, type.tokens)], List.forall_mem_singleton.mpr hwritten, ?_, ?_⟩
    · rw [inputTokens, tokensAfter, List.append_nil]
      exact .one
    · rw [namelessAll, ← htoTy]
      rfl
  | ⟨_, type⟩ :: q :: ps, h => by
    obtain ⟨htype, hps⟩ := allComplete_cons_iff.mp h
    obtain ⟨e, hwritten, htoTy⟩ := exists_written htype
    obtain ⟨inputs, hinputs, hlisted, hparameters⟩ := exists_writtenInputs hps
    refine ⟨(e, type.tokens) :: inputs, List.forall_mem_cons.mpr ⟨hwritten, hinputs⟩, ?_, ?_⟩
    · exact Listed.more rfl hlisted
    · rw [List.map_cons, TypeExpr.toParameters, namelessAll, hparameters, htoTy]

end

end Ty

namespace TypeExpr

mutual

/-- What an annotation means does not depend on where it stands. -/
theorem toTy_bare : ∀ e : TypeExpr, e.bare.toTy = e.toTy
  | primitive _ name => rfl
  | list _ element => congrArg Ty.list (toTy_bare element)
  | function _ inputs output => by
    rw [bare, toTy, toTy, toParameters_bareAll inputs, toTy_bare output]

theorem toParameters_bareAll : ∀ es : List TypeExpr,
    toParameters (bareAll es) = toParameters es
  | [] => rfl
  | e :: es => by rw [bareAll, toParameters, toParameters, toTy_bare e, toParameters_bareAll es]

end

end TypeExpr

/-- The text that a message shows of a type reads back as the type. Where nothing in a type is
unresolved, its text has tokens; an annotation is read from them up to the end of the text; and what
the annotation means is the type with all names of parameters left out. So two such types are shown
alike exactly where they agree. -/
theorem Ty.shown_reads_back (g : Grammar) (file : String) :
    (∀ t : Ty, t.isComplete = true → ∃ text place e s,
      Source.tokens ⟨file, t.shown⟩ = .ok (text ++ [.eofAt place]) ∧
      g.withTypes.type (.ofTokens file (text ++ [.eofAt place])) = .ok e s ∧
      s.ahead = [] ∧ s.current = .eofAt place ∧ e.toTy = t.nameless) ∧
    ∀ a b : Ty, a.isComplete = true → b.isComplete = true →
      (a.shown = b.shown ↔ a.agrees b = true) := by
  refine ⟨fun t ht => ?_, fun a b ha hb => ?_⟩
  · have hspells : Spells (t.shown.toList ++ []) (t.tokens.map Token.word ++ []) :=
      spells_shown ht nofun spells_nil
    rw [List.append_nil, List.append_nil] at hspells
    let source : Source := ⟨file, t.shown⟩
    have hsource : Spells source.text.toList (t.tokens.map Token.word) := hspells
    obtain ⟨text, place, htokens, hwords, _⟩ := hsource.tokens
    obtain ⟨e, hwritten, htoTy⟩ := exists_written ht
    have hreads := Grammar.readsType_of_written (g := g.withTypes) rfl (hwritten.replace hwords)
    let start := TokenStream.ofTokens file (text ++ [.eofAt place])
    have hahead : start.ahead = text ++ [] := by
      rw [List.append_nil]
      exact Program.ahead_ofTokens file text place
    obtain ⟨e', s, hread, hbare, hpasses⟩ :=
      hreads start.ahead.length start [] hahead (Nat.le_refl _)
    have hend : s.ahead = [] := hpasses.rest hahead
    refine ⟨text, place, e', s, htokens, hread, hend, ?_, ?_⟩
    · calc s.current = s.endToken := by rw [TokenStream.current, hend]
        _ = start.endToken := hpasses.ending
        _ = .eofAt place := by simp [start, TokenStream.ofTokens, TokenStream.endToken, Token.eofAt]
    · rw [← e'.toTy_bare, hbare, e.toTy_bare, htoTy]
  · constructor
    · exact agrees_of_shown_eq
    · intro hagrees
      exact shown_eq_iff.mpr (nameless_eq_of_agrees ha hb hagrees)

/-- The type of `fn f(xs: [real], g: (bool) -> int) -> [string]`. -/
def Ty.namedInputs : Ty :=
  .function [⟨"xs", .list .real⟩, ⟨"g", .function [⟨"", .boolean⟩] .integer⟩] (.list .text)

theorem Ty.shown_reads_back_namedInputs :
    namedInputs.isComplete = true ∧ namedInputs.nameless.isComplete = true ∧
      (∃ text place e s,
        Source.tokens ⟨"types", "([real], (bool) -> int) -> [string]"⟩ =
          .ok (text ++ [.eofAt place]) ∧
        Grammar.empty.withTypes.type (.ofTokens "types" (text ++ [.eofAt place])) = .ok e s ∧
        s.ahead = [] ∧ s.current = .eofAt place ∧
        e.toTy = .function [⟨"", .list .real⟩, ⟨"", .function [⟨"", .boolean⟩] .integer⟩]
          (.list .text)) ∧
      (namedInputs.shown = namedInputs.nameless.shown ↔
        namedInputs.agrees namedInputs.nameless = true) := by
  have hshown : namedInputs.shown = "([real], (bool) -> int) -> [string]" := by decide
  obtain ⟨hreads, hsame⟩ := shown_reads_back .empty "types"
  have hread := hreads namedInputs (by decide)
  rw [hshown] at hread
  exact ⟨by decide, by decide, hread, hsame _ _ (by decide) (by decide)⟩

end Piecewise
