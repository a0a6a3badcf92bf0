import Piecewise.Proofs.Source.Order
import Piecewise.Proofs.Token.Joined

/-!
# Where tokens stand

A token starts at the line and the column that the text before it tells: one more than the newlines
in it, and one more than the characters behind the last of these. It stops on the line where it
starts, after as many columns as its lexeme has characters. That is not where its text leads to when
a text literal holds newlines, but never further, so tokens stand in order wherever newlines are.
-/

namespace Piecewise

/-- A token that stands in a file behind a text, where its lexeme stands. -/
structure Token.StandsBehind (t : Token) (file : String) (before lexeme : List Char) : Prop where
  file : t.span.start.file = file
  line : t.span.start.line = 1 + before.count '\n'
  column : t.span.start.column = 1 + (before.reverse.takeWhile (· ≠ '\n')).length
  stop : t.span.stop = { t.span.start with column := t.span.start.column + lexeme.length }

/-- Tokens in the order of their places: every token has a width unless it is the last, and is over
before any token behind it starts. -/
def Token.InOrder (tokens : List Token) : Prop :=
  tokens.Pairwise fun t u => t.span.start < t.span.stop ∧ t.span.stop ≤ u.span.start

namespace Segment

/-- Whether a segment makes a token: white space and comments make none. -/
def makesToken (segment : Segment) : Bool := (segment.lexeme.token? segment.taken).isSome

theorem makesToken_iff {segment : Segment} :
    segment.makesToken = true ↔ segment.lexeme ≠ .blank ∧ segment.lexeme ≠ .comment := by
  obtain ⟨lexeme, taken⟩ := segment
  cases lexeme <;> simp [makesToken, Lexeme.token?]

section Places

variable {file : String} {before : List Char} {segment : Segment} {segments : List Segment}
  {t : Token}

theorem placeAfter_append (file : String) (before cs : List Char) :
    placeAfter file (before ++ cs) = (placeAfter file before).afterAll cs :=
  (afterAll_placeAfter file before cs).symm

theorem standsBehind_of_token? (h : segment.token? file before = some t) :
    t.StandsBehind file before segment.taken := by
  obtain ⟨made, _, rfl⟩ := Option.map_eq_some_iff.mp h
  exact ⟨rfl, rfl, rfl, rfl⟩

theorem word_of_token? (h : segment.token? file before = some t) :
    segment.lexeme.token? segment.taken = some t.word := by
  obtain ⟨made, hmade, rfl⟩ := Option.map_eq_some_iff.mp h
  exact hmade

/-- The end of a text stands behind all of it and has no lexeme. -/
theorem standsBehind_eofAt (file : String) (text : List Char) :
    (Token.eofAt (placeAfter file text)).StandsBehind file text [] := ⟨rfl, rfl, rfl, rfl⟩

/-- A token stops before what follows its segment starts. -/
theorem span_of_token? (hne : segment.taken ≠ []) (h : segment.token? file before = some t) :
    t.span.start = placeAfter file before ∧ t.span.start < t.span.stop ∧
      t.span.stop ≤ placeAfter file (before ++ segment.taken) := by
  obtain ⟨made, _, rfl⟩ := Option.map_eq_some_iff.mp h
  have hpos : 0 < segment.taken.length := List.length_pos_iff.mpr hne
  refine ⟨rfl, Position.lt_iff.mpr (Or.inr ⟨rfl, Nat.lt_add_of_pos_right hpos⟩), ?_⟩
  rw [placeAfter_append]
  exact Position.right_le_afterAll (placeAfter file before) segment.taken

/-- The tokens of further segments come behind those of the first ones. -/
theorem getElem?_tokens_append (file : String) (prior rest : List Segment) (before : List Char)
    (i : Nat) : (tokens file before (prior ++ rest))[prior.countP makesToken + i]? =
      (tokens file (before ++ written prior) rest)[i]? := by
  induction prior generalizing before with
  | nil => simp [written]
  | cons segment prior ih =>
    have hwritten : before ++ written (segment :: prior) =
        (before ++ segment.taken) ++ written prior := by simp [written]
    rw [hwritten, ← ih (before ++ segment.taken), List.cons_append, tokens, List.countP_cons]
    cases hmade : segment.token? file before with
    | none =>
      have hnone : segment.makesToken = false := by
        rw [token?, Option.map_eq_none_iff] at hmade
        simp [makesToken, hmade]
      simp [hnone]
    | some made =>
      have hsome : segment.makesToken = true := by simp [makesToken, word_of_token? hmade]
      rw [hsome, if_pos rfl, Nat.add_right_comm, Option.toList_some, List.singleton_append,
        List.getElem?_cons_succ]

/-- As many tokens as there are segments that make one, and the end. -/
theorem length_tokens (file : String) (before : List Char) (segments : List Segment) :
    (tokens file before segments).length = segments.countP makesToken + 1 := by
  have hend := getElem?_tokens_append file segments [] before
  rw [List.append_nil] at hend
  have hlast := hend 0
  have hnone := hend 1
  rw [tokens, List.getElem?_cons_zero] at hlast
  rw [tokens, List.getElem?_cons_succ, List.getElem?_nil, List.getElem?_eq_none_iff] at hnone
  obtain ⟨hlt, _⟩ := List.getElem?_eq_some_iff.mp hlast
  omega

/-- No token of segments stands before the place where the first of these stands. -/
theorem le_start_of_mem_tokens (h : t ∈ tokens file before segments) :
    placeAfter file before ≤ t.span.start := by
  induction segments generalizing before with
  | nil =>
    rw [tokens, List.mem_singleton] at h
    subst h
    exact le_refl _
  | cons segment segments ih =>
    rcases List.mem_append.mp h with hmade | hlater
    · obtain ⟨made, _, rfl⟩ := Option.map_eq_some_iff.mp (Option.mem_toList.mp hmade)
      exact le_refl _
    · refine le_trans ?_ (ih hlater)
      rw [placeAfter_append]
      exact Position.le_afterAll _ _

/-- All tokens of segments stand in one file. -/
theorem file_of_mem_tokens (h : t ∈ tokens file before segments) : t.span.start.file = file := by
  induction segments generalizing before with
  | nil =>
    rw [tokens, List.mem_singleton] at h
    subst h
    rfl
  | cons segment segments ih =>
    rcases List.mem_append.mp h with hmade | hlater
    · exact (standsBehind_of_token? (Option.mem_toList.mp hmade)).file
    · exact ih hlater

/-- The tokens of segments stand in order. -/
theorem inOrder_tokens (h : ∀ segment ∈ segments, segment.taken ≠ []) (before : List Char) :
    Token.InOrder (tokens file before segments) := by
  induction segments generalizing before with
  | nil => exact List.pairwise_singleton _ _
  | cons segment segments ih =>
    obtain ⟨hne, hrest⟩ := List.forall_mem_cons.mp h
    have hlater := ih hrest (before ++ segment.taken)
    rw [tokens]
    cases hmade : segment.token? file before with
    | none => exact hlater
    | some made =>
      obtain ⟨_, hwidth, hstop⟩ := span_of_token? hne hmade
      refine List.pairwise_cons.mpr ⟨fun u hu => ?_, hlater⟩
      exact ⟨hwidth, le_trans hstop (le_start_of_mem_tokens hu)⟩

/-- A token of segments that is not the end is made by one of them. -/
theorem exists_segment_of_mem_tokens (h : t ∈ tokens file before segments) (ht : t.kind ≠ .eof) :
    ∃ prior segment later, segments = prior ++ segment :: later ∧
      segment.token? file (before ++ written prior) = some t := by
  induction segments generalizing before with
  | nil =>
    rw [tokens, List.mem_singleton] at h
    subst h
    exact absurd rfl ht
  | cons segment segments ih =>
    rcases List.mem_append.mp h with hmade | hlater
    · exact ⟨[], segment, segments, rfl, by simpa [written] using hmade⟩
    · obtain ⟨prior, maker, later, rfl, hmaker⟩ := ih hlater
      refine ⟨segment :: prior, maker, later, rfl, ?_⟩
      simpa [written] using hmaker

end Places

end Segment

/-- Behind the first segments of a text stands the next one, the longest that any class matches. -/
theorem Segmentation.longest_behind {segments prior later : List Segment} {segment : Segment}
    {cs left : List Char} (h : Segmentation cs segments left)
    (hsegments : segments = prior ++ segment :: later) :
    ∃ rest, cs = Segment.written prior ++ (segment.taken ++ rest) ∧
      segment.lexeme.Longest segment.taken (segment.taken ++ rest) := by
  induction h generalizing prior with
  | stop => simp at hsegments
  | @cut lexeme taken rest left segments hlongest hne k ih =>
    cases prior with
    | nil =>
      cases hsegments
      exact ⟨rest, rfl, hlongest⟩
    | cons first prior =>
      obtain ⟨rfl, hlater⟩ := List.cons.inj hsegments
      obtain ⟨behind, rfl, hbehind⟩ := ih hlater
      exact ⟨behind, by simp [Segment.written], hbehind⟩

/-- The tokens of a source stand in order, the end behind all others, at which it stops. -/
theorem inOrder_of_tokens {source : Source} {tokens : List Token}
    (h : source.tokens = .ok tokens) : Token.InOrder tokens := by
  obtain ⟨segments, hcut, rfl⟩ := tokens_eq_ok_iff.mp h
  exact Segment.inOrder_tokens (fun segment hmem => (hcut.matched segment hmem).1) []

/-- A place where a token of a source starts that is not the end of the source. -/
def Source.Starts (source : Source) (p : Position) : Prop :=
  ∃ tokens, source.tokens = .ok tokens ∧ ∃ t ∈ tokens, t.kind ≠ .eof ∧ t.span.start = p

section Characters

variable {source : Source} {p : Position}

/-- A text has only one character at a place. -/
theorem character_unique {file : String} {before before' rest rest' : List Char} {c c' : Char}
    (htext : before ++ c :: rest = before' ++ c' :: rest')
    (hplace : placeAfter file before = placeAfter file before') : before = before' ∧ c = c' := by
  have hshorter : ∀ {u v w : List Char}, placeAfter file u = placeAfter file (u ++ v) → v = [] := by
    intro u v w hsame
    by_contra hne
    have hlt := Position.lt_afterAll (placeAfter file u) hne
    rw [afterAll_placeAfter, ← hsame] at hlt
    exact lt_irrefl _ hlt
  rcases List.append_eq_append_iff.mp htext with ⟨more, rfl, hmore⟩ | ⟨more, rfl, hmore⟩
  · obtain rfl := hshorter (w := rest) hplace
    exact ⟨(List.append_nil _).symm, (List.cons.inj hmore).1⟩
  · obtain rfl := hshorter (w := rest) hplace.symm
    exact ⟨List.append_nil _, (List.cons.inj hmore).1.symm⟩

/-- Where a token starts that is not the end, a character stands that is not blank. -/
theorem character_of_starts (h : source.Starts p) :
    ∃ before c rest, source.text.toList = before ++ c :: rest ∧
      p = placeAfter source.name before ∧ Text.isBlank c = false := by
  obtain ⟨tokens, htokens, t, ht, hkind, rfl⟩ := h
  obtain ⟨segments, hcut, rfl⟩ := tokens_eq_ok_iff.mp htokens
  obtain ⟨prior, segment, later, hsegments, hmade⟩ :=
    Segment.exists_segment_of_mem_tokens ht hkind
  rw [List.nil_append] at hmade
  obtain ⟨rest, htext, hlongest⟩ := hcut.longest_behind hsegments
  have hblank : segment.lexeme ≠ .blank := by
    intro hblank
    rw [token?_eq_none_iff.mpr (Or.inl hblank)] at hmade
    cases hmade
  obtain ⟨hstart, _⟩ := Segment.span_of_token? hlongest.nonempty hmade
  obtain ⟨c, lexeme, htaken⟩ := List.exists_cons_of_ne_nil hlongest.nonempty
  refine ⟨Segment.written prior, c, lexeme ++ rest, ?_, hstart, ?_⟩
  · rw [htext, htaken, List.cons_append]
  · exact hlongest.head_of_ne_blank hblank c (by rw [htaken]; rfl)

/-- Where cutting a source into tokens stops, the character that it stops at stands, and it is not
blank. -/
theorem character_of_error {d : Diagnostic} (h : source.tokens = .error d) :
    ∃ before c rest, source.text.toList = before ++ c :: rest ∧
      d = (Fault.unrecognisedToken (String.singleton c)).at (placeAfter source.name before) ∧
      Text.isBlank c = false := by
  obtain ⟨segments, c, rest, hcut, hunmatched, rfl⟩ := tokens_eq_error_iff.mp h
  refine ⟨Segment.written segments, c, rest, hcut.append, rfl, ?_⟩
  by_contra hblank
  refine hunmatched .blank (by decide) [c] ⟨rest, rfl⟩ (Pattern.matches_some_iff.mpr ⟨by simp, ?_⟩)
  simpa using hblank

end Characters

/-- Tokens that stand in a source as its segments tell. -/
structure Segment.InPlace (source : Source) (segments : List Segment) (tokens : List Token) :
    Prop where
  count : tokens.length = segments.countP makesToken + 1
  /-- A segment that makes a token has as many tokens before its own as there are such segments
  before it. Its token starts at the line and the column that all the text before it tells. -/
  placed : ∀ prior segment later, segments = prior ++ segment :: later →
    segment.lexeme ≠ .blank → segment.lexeme ≠ .comment →
    ∃ t, tokens[prior.countP makesToken]? = some t ∧
      segment.lexeme.token? segment.taken = some (t.kind, t.value) ∧
      t.StandsBehind source.name (written prior) segment.taken
  /-- The end of the source stands behind all of its text. -/
  last : ∃ t, tokens.getLast? = some t ∧ t.kind = .eof ∧
    t.StandsBehind source.name source.text.toList [] ∧ t.span.stop = t.span.start
  ordered : ∀ i t u, tokens[i]? = some t → tokens[i + 1]? = some u →
    t.span.start < t.span.stop ∧ t.span.stop ≤ u.span.start

/-- The tokens of a source stand where their lexemes do: at the line and the column that the text
before tells, up to as many columns further as the lexeme has characters, and the end of the source
behind all of its text. In order of lines and columns, every token but the end starts before it
stops and stops before the next one starts, also where a text literal or the text between two tokens
holds newlines. -/
theorem tokens_inPlace {source : Source} {tokens : List Token} (h : source.tokens = .ok tokens) :
    ∃ segments, Segmentation source.text.toList segments [] ∧
      Segment.InPlace source segments tokens := by
  have horder := inOrder_of_tokens h
  obtain ⟨segments, hcut, rfl⟩ := tokens_eq_ok_iff.mp h
  refine ⟨segments, hcut, ?count, ?placed, ?last, ?ordered⟩
  case count => exact Segment.length_tokens _ _ _
  case placed =>
    rintro prior segment later rfl hblank hcomment
    have hmakes : segment.makesToken = true := Segment.makesToken_iff.mpr ⟨hblank, hcomment⟩
    have hplace := Segment.getElem?_tokens_append source.name prior (segment :: later) [] 0
    rw [Nat.add_zero, List.nil_append, Segment.tokens] at hplace
    cases hmade : segment.token? source.name (Segment.written prior) with
    | none =>
      rw [Segment.token?, Option.map_eq_none_iff] at hmade
      simp [Segment.makesToken, hmade] at hmakes
    | some t =>
      rw [hmade] at hplace
      exact ⟨t, hplace, Segment.word_of_token? hmade, Segment.standsBehind_of_token? hmade⟩
  case last =>
    have hwritten : source.text.toList = Segment.written segments := by simpa using hcut.append
    have hlast := Segment.getElem?_tokens_append source.name segments [] [] 0
    rw [List.append_nil, List.nil_append, ← hwritten, Segment.tokens, Nat.add_zero] at hlast
    refine ⟨.eofAt (placeAfter source.name source.text.toList), ?_, rfl,
      Segment.standsBehind_eofAt _ _, rfl⟩
    rw [List.getLast?_eq_getElem?, Segment.length_tokens]
    exact hlast
  case ordered =>
    intro i t u ht hu
    obtain ⟨hi, rfl⟩ := List.getElem?_eq_some_iff.mp ht
    obtain ⟨hi', rfl⟩ := List.getElem?_eq_some_iff.mp hu
    exact List.pairwise_iff_getElem.mp horder i (i + 1) hi hi' (Nat.lt_succ_self i)

section TwoLines

/-- A text literal over two lines, a mark right behind it, and a name behind a comment. -/
def twoLines : Source := ⟨"lines", "  \"é\n\"++ // no token\n\tx"⟩

/-- The literal is said to stop four columns behind its start, on its first line, although the mark
behind it stands on the second one. -/
def twoLinesTokens : List Token :=
  [⟨.text, "é\n", ⟨⟨1, 3, "lines"⟩, ⟨1, 7, "lines"⟩⟩⟩,
    ⟨.plusPlus, "++", ⟨⟨2, 2, "lines"⟩, ⟨2, 4, "lines"⟩⟩⟩,
    ⟨.identifier, "x", ⟨⟨3, 2, "lines"⟩, ⟨3, 3, "lines"⟩⟩⟩,
    .eofAt ⟨3, 3, "lines"⟩]

theorem tokens_inPlace_twoLines :
    twoLines.tokens = .ok twoLinesTokens ∧
      ∃ segments, Segmentation twoLines.text.toList segments [] ∧
        Segment.InPlace twoLines segments twoLinesTokens := by
  have htokens : twoLines.tokens = .ok twoLinesTokens := by rfl
  exact ⟨htokens, tokens_inPlace htokens⟩

end TwoLines

end Piecewise
