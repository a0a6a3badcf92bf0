import Piecewise.Proofs.Token.Places

/-!
# Layout between lexemes

White space in front of a text makes no token, and neither does a comment up to its newline. A
lexeme that makes a token does not go on across white space, unless it is a text, which stops at its
closing quote. So the lexemes of a text make the same tokens, places apart, with any other layout
between them.
-/

namespace Piecewise

/-- White space and comments, each comment with the newline that ends it. -/
inductive Filler : List Char → Prop
  | nil : Filler []
  | blank {c : Char} {rest : List Char} (hc : Text.isBlank c = true) (k : Filler rest) :
      Filler (c :: rest)
  | comment {line rest : List Char} (hline : '\n' ∉ line) (k : Filler rest) :
      Filler ('/' :: '/' :: (line ++ '\n' :: rest))

/-- What may stand between two lexemes: white space, and then more of it and comments. -/
inductive Layout : List Char → Prop
  | mk {c : Char} {rest : List Char} (hc : Text.isBlank c = true) (k : Filler rest) :
      Layout (c :: rest)

/-- Lexemes in order with layout between them. There may be layout behind the last one. -/
inductive Spaced : List (List Char) → List Char → Prop
  | nil : Spaced [] []
  | last {lexeme : List Char} : Spaced [lexeme] lexeme
  | cons {lexeme between inside : List Char} {lexemes : List (List Char)} (h : Layout between)
      (k : Spaced lexemes inside) : Spaced (lexeme :: lexemes) (lexeme ++ (between ++ inside))

/-- A text of lexemes with layout between them, and with or without layout at its ends. -/
def LaidOut (lexemes : List (List Char)) (cs : List Char) : Prop :=
  ∃ front inside, (front = [] ∨ Layout front) ∧ Spaced lexemes inside ∧ cs = front ++ inside

/-- Lexemes in order with the same text behind each of them. -/
def spread (behind : List Char) (lexemes : List (List Char)) : List Char :=
  lexemes.flatMap fun lexeme => lexeme ++ behind

theorem spaced_spread {behind : List Char} (h : Layout behind) (lexemes : List (List Char)) :
    Spaced lexemes (spread behind lexemes) := by
  induction lexemes with
  | nil => exact .nil
  | cons lexeme lexemes ih =>
    rw [spread, List.flatMap_cons, List.append_assoc]
    exact .cons h ih

/-- Any lexemes can be written with layout between them. -/
theorem laidOut_spread {behind : List Char} (h : Layout behind) (lexemes : List (List Char)) :
    LaidOut lexemes (spread behind lexemes) :=
  ⟨[], _, .inl rfl, spaced_spread h lexemes, rfl⟩

namespace Lexeme

variable {lexeme other : Lexeme} {taken rest run behind : List Char} {c : Char}

open Pattern

theorem comment_mem_table : comment ∈ table := by decide

/-- What is matched of a text that it is all of is the longest match there. -/
theorem longest_whole (hmem : lexeme ∈ table) (h : lexeme.pattern.Matches taken) :
    lexeme.Longest taken (taken ++ []) := by
  rw [List.append_nil]
  exact ⟨hmem, List.prefix_refl taken, h, fun _ _ _ hu _ => hu.length_le⟩

/-- No class matches what begins with the lexeme of a token and reaches across a blank behind it. A
text stops at its closing quote, and a comment does not begin with such a lexeme. -/
theorem Longest.not_across_blank (h : lexeme.Longest taken (taken ++ rest))
    (hblank : lexeme ≠ blank) (hcomment : lexeme ≠ comment) (hc : Text.isBlank c = true)
    (hother : other ∈ table) : ¬ other.pattern.Matches (taken ++ c :: run) := by
  intro hmatch
  obtain ⟨d, t, htaken⟩ := List.exists_cons_of_ne_nil h.nonempty
  subst htaken
  have hfirst : lexeme.Opens d := opens_of_matches h.matched
  rcases eq_of_blank hother hmatch (by simp) hc with rfl | rfl | rfl
  · have hd : Text.isBlank d = true := opens_of_matches hmatch
    exact hblank (eq_blank_of_opens h.mem hfirst hd)
  · have hquote : d = '"' := opens_of_matches hmatch
    subst hquote
    obtain rfl : lexeme = text := eq_text_of_opens h.mem hfirst
    have hnone := text_prefix_free h.matched hmatch
    cases hnone
  · obtain ⟨w, hw, _⟩ := matches_comment_iff.mp hmatch
    cases t with
    | nil =>
      cases hw
      cases hc
    | cons e t =>
      cases hw
      exact hcomment (eq_comment_of_slashes h.mem h.matched)

/-- The lexeme of a token is taken as it is where a blank follows. -/
theorem Longest.before_blank (h : lexeme.Longest taken (taken ++ rest)) (hblank : lexeme ≠ blank)
    (hcomment : lexeme ≠ comment) (hc : Text.isBlank c = true) :
    lexeme.Longest taken (taken ++ c :: behind) := by
  refine ⟨h.mem, List.prefix_append _ _, h.matched, fun other hother u hu hmatch => ?_⟩
  rcases prefix_cons_cases hu with hfront | ⟨w, rfl⟩
  · exact hfront.length_le
  · exact absurd hmatch (h.not_across_blank hblank hcomment hc hother)

end Lexeme

section Spelled

variable {cs behind : List Char} {words : List (TokenKind × String)} {segment : Segment}

/-- A lexeme on its own spells its token. -/
theorem spells_alone (hmem : segment.lexeme ∈ Lexeme.table)
    (h : segment.lexeme.pattern.Matches segment.taken) :
    Spells segment.taken (segment.lexeme.token? segment.taken).toList := by
  have hlongest := Lexeme.longest_whole hmem h
  have hcut := Segmentation.cut hlongest hlongest.nonempty .stop
  rw [List.append_nil] at hcut
  exact ⟨_, hcut, by rw [Segment.words_cons]; exact List.append_nil _⟩

/-- A text spells its words and no others. -/
theorem Spells.unique {others : List (TokenKind × String)} (h : Spells cs words)
    (k : Spells cs others) : others = words := by
  have hlist : cs = (Source.mk "" (String.ofList cs)).text.toList := String.toList_ofList.symm
  rw [hlist] at h k
  obtain ⟨text, place, htokens, rfl, _⟩ := h.tokens
  obtain ⟨text', place', htokens', rfl, _⟩ := k.tokens
  have hsame := Except.ok.inj (htokens'.symm.trans htokens)
  rw [(List.append_inj' hsame rfl).1]

theorem Spells.after_blank {c : Char} (h : Spells cs words) (hc : Text.isBlank c = true) :
    Spells (c :: cs) words := by
  obtain ⟨segments, hcut, rfl⟩ := h
  have hblanks : ∀ d ∈ [c], Text.isBlank d = true := List.forall_mem_singleton.mpr hc
  obtain ⟨wider, hwider, hwords⟩ := hcut.after_blanks (List.cons_ne_nil c []) hblanks
  exact ⟨wider, hwider, hwords⟩

/-- White space and comments in front of a text change nothing about what it spells. -/
theorem Spells.after_filler {u : List Char} (h : Spells cs words) (k : Filler u) :
    Spells (u ++ cs) words := by
  induction k with
  | nil => exact h
  | blank hc _ ih => exact ih.after_blank hc
  | @comment line rest hline _ ih =>
    have hmatch : Lexeme.comment.pattern.Matches ('/' :: '/' :: line) := by
      refine Lexeme.matches_comment_iff.mpr ⟨line, rfl, Pattern.matches_many_one_iff.mpr ?_⟩
      exact fun c hc => decide_eq_true (ne_of_mem_of_not_mem hc hline)
    let skipped : Segment := ⟨.comment, '/' :: '/' :: line⟩
    have hcomment : Spells skipped.taken [] := spells_alone Lexeme.comment_mem_table hmatch
    have hjoined := hcomment.join ih
    simpa [skipped] using hjoined

theorem Spells.after_layout {u : List Char} (h : Spells cs words) (k : Layout u) :
    Spells (u ++ cs) words := by
  cases k with
  | mk hc k => exact (h.after_filler k).after_blank hc

/-- The lexeme of a token in front of layout spells its token, and then what follows. -/
theorem Spells.after_lexeme {between rest : List Char} (h : Spells cs words) (k : Layout between)
    (hmakes : segment.makesToken = true)
    (hlongest : segment.lexeme.Longest segment.taken (segment.taken ++ rest)) :
    Spells (segment.taken ++ (between ++ cs))
      ((segment.lexeme.token? segment.taken).toList ++ words) := by
  obtain ⟨segments, hcut, rfl⟩ := h.after_layout k
  obtain ⟨hblank, hcomment⟩ := Segment.makesToken_iff.mp hmakes
  cases k with
  | @mk c filler hc k =>
    have hfront : segment.lexeme.Longest segment.taken (segment.taken ++ c :: (filler ++ cs)) :=
      hlongest.before_blank hblank hcomment hc
    exact ⟨segment :: segments, .cut hfront hfront.nonempty hcut, Segment.words_cons _ _⟩

end Spelled

namespace Segment

def lexemes (segments : List Segment) : List (List Char) :=
  (segments.filter makesToken).map taken

theorem words_filter (segments : List Segment) :
    words (segments.filter makesToken) = words segments := by
  induction segments with
  | nil => rfl
  | cons segment segments ih =>
    rw [List.filter_cons]
    by_cases hmakes : segment.makesToken = true
    · rw [if_pos hmakes, words_cons, words_cons, ih]
    · have hnone : segment.lexeme.token? segment.taken = none := by
        simpa [makesToken] using hmakes
      rw [if_neg hmakes, words_cons, hnone, ih]
      rfl

end Segment

section Sources

variable {segments : List Segment} {cs text : List Char}

/-- Every segment of a text is the longest match somewhere. -/
theorem Segmentation.exists_longest (h : Segmentation cs segments []) :
    ∀ segment ∈ segments, ∃ rest,
      segment.lexeme.Longest segment.taken (segment.taken ++ rest) := by
  intro segment hmem
  obtain ⟨prior, later, hsegments⟩ := List.append_of_mem hmem
  obtain ⟨rest, _, hlongest⟩ := h.longest_behind hsegments
  exact ⟨rest, hlongest⟩

/-- Lexemes of tokens spell these tokens, whatever layout is between them. -/
theorem spells_of_spaced {made : List Segment}
    (hmakes : ∀ segment ∈ made, segment.makesToken = true)
    (hlongest : ∀ segment ∈ made, ∃ rest,
      segment.lexeme.Longest segment.taken (segment.taken ++ rest))
    (h : Spaced (made.map Segment.taken) text) : Spells text (Segment.words made) := by
  induction made generalizing text with
  | nil =>
    cases h
    exact spells_nil
  | cons segment made ih =>
    obtain ⟨hmakes, hmakes'⟩ := List.forall_mem_cons.mp hmakes
    obtain ⟨⟨rest, hlongest⟩, hlongest'⟩ := List.forall_mem_cons.mp hlongest
    rw [List.map_cons] at h
    generalize hlexemes : made.map Segment.taken = lexemes at h
    cases h with
    | last =>
      have halone : Segment.words [segment] = (segment.lexeme.token? segment.taken).toList := by
        rw [Segment.words_cons]
        exact List.append_nil _
      rw [List.map_eq_nil_iff.mp hlexemes, halone]
      exact spells_alone hlongest.mem hlongest.matched
    | cons hbetween k =>
      rw [Segment.words_cons]
      have hinside := ih hmakes' hlongest' (hlexemes ▸ k)
      exact hinside.after_lexeme hbetween hmakes hlongest

/-- A text of the lexemes of another text, with any layout, spells what that text spells. -/
theorem Segmentation.spells_of_laidOut (h : Segmentation cs segments [])
    (k : LaidOut (Segment.lexemes segments) text) : Spells text (Segment.words segments) := by
  obtain ⟨front, inside, hfront, hinside, rfl⟩ := k
  have hspells : Spells inside (Segment.words (segments.filter Segment.makesToken)) := by
    refine spells_of_spaced (fun segment hmem => (List.mem_filter.mp hmem).2) ?_ hinside
    exact fun segment hmem => h.exists_longest segment (List.mem_filter.mp hmem).1
  rw [Segment.words_filter] at hspells
  rcases hfront with rfl | hlayout
  · exact hspells
  · exact hspells.after_layout hlayout

end Sources

end Piecewise
