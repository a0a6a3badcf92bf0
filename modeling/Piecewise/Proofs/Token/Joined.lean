import Piecewise.Proofs.Token.Segmentation

/-!
# Texts with a newline between them

No lexeme reaches across a newline that stands between two texts of their own, except for white
space, which makes no token. So the tokens of the joined text are, places apart, those of the first
text and then those of the second.
-/

namespace Piecewise

namespace Lexeme

open Pattern

section Classes

variable {lexeme : Lexeme} {c : Char} {u v : List Char}

/-- Only white space begins with a blank. -/
theorem eq_blank_of_opens (hmem : lexeme ∈ table) (h : lexeme.Opens c)
    (hc : Text.isBlank c = true) : lexeme = blank := by
  have hblank := toNat_of_isBlank hc
  cases lexeme with
  | blank => rfl
  | word | number | text | comment =>
    have hcode := openingCode_of_opens h
    simp only [OpeningCode] at hcode
    omega
  | mark kind spelling =>
    obtain ⟨d, rest, hspelling, _, _, hnot, _⟩ := marks_open _ (mem_marks_of_mem_table hmem)
    change spelling.toList = d :: rest at hspelling
    change spelling.toList.head? = some c at h
    rw [hspelling] at h
    cases h
    rw [hc] at hnot
    cases hnot

/-- Only a text begins with a quote. -/
theorem eq_text_of_opens (hmem : lexeme ∈ table) (h : lexeme.Opens '"') : lexeme = text := by
  cases lexeme with
  | text => rfl
  | word | number | blank | comment =>
    have hcode := openingCode_of_opens h
    simp [OpeningCode] at hcode
  | mark kind spelling =>
    obtain ⟨d, rest, hspelling, _, _, _, hquote, _⟩ :=
      marks_open _ (mem_marks_of_mem_table hmem)
    change spelling.toList = d :: rest at hspelling
    change spelling.toList.head? = some '"' at h
    rw [hspelling] at h
    cases h
    exact absurd rfl hquote

/-- What is matched of a text after its opening quote cannot be prolonged to another match. The
induction is on the length, for a backslash is taken with the character behind it. -/
theorem textBody_prefix_free (u v : List Char) (h : textBody.Matches u)
    (k : textBody.Matches (u ++ v)) : v = [] := by
  induction hlength : u.length using Nat.strongRecOn generalizing u with
  | ind n ih =>
    cases u with
    | nil => exact absurd h not_matches_textBody_nil
    | cons c u =>
      rw [List.cons_append] at k
      by_cases hquote : c = '"'
      · subst hquote
        exact (List.append_eq_nil_iff.mp (matches_textBody_quote.mp k)).2
      · by_cases hback : c = '\\'
        · subst hback
          obtain ⟨d, w, _, hw, rfl⟩ := matches_textBody_backslash.mp h
          obtain ⟨d', w', _, hw', heq⟩ := matches_textBody_backslash.mp k
          cases heq
          have hshorter : w.length < n := by
            rw [← hlength, List.length_cons, List.length_cons]
            omega
          exact ih w.length hshorter w hw hw' rfl
        · rw [matches_textBody_cons hquote hback] at h k
          have hshorter : u.length < n := by
            rw [← hlength, List.length_cons]
            omega
          exact ih u.length hshorter u h k rfl

theorem text_prefix_free (h : text.pattern.Matches u) (k : text.pattern.Matches (u ++ v)) :
    v = [] := by
  cases u with
  | nil => exact absurd h not_matches_seq_one_nil
  | cons c u =>
    exact textBody_prefix_free u v (matches_seq_one_iff.mp h).2 (matches_seq_one_iff.mp k).2

/-- Only comments begin with two slashes. -/
theorem eq_comment_of_slashes (hmem : lexeme ∈ table)
    (h : lexeme.pattern.Matches ('/' :: '/' :: u)) : lexeme = comment := by
  have hopens := opens_of_matches h
  cases lexeme with
  | comment => rfl
  | word | number | blank | text =>
    have hcode := openingCode_of_opens hopens
    simp [OpeningCode] at hcode
  | mark kind spelling =>
    obtain ⟨d, rest, hspelling, _, _, _, _, hslash⟩ :=
      marks_open _ (mem_marks_of_mem_table hmem)
    have hwhole := (matches_literal_iff.mp h).trans hspelling
    cases hwhole
    cases hslash rfl

theorem startsWord_or_isDigit {c : Char} (h : continuesWord c = true) :
    startsWord c = true ∨ c.isDigit = true := by
  unfold continuesWord Char.isAlphanum at h
  unfold startsWord
  simp only [Bool.or_eq_true] at h ⊢
  rcases h with (h | h) | h
  · exact Or.inl (Or.inl h)
  · exact Or.inr h
  · exact Or.inl (Or.inr h)

/-- A blank is matched in white space, in texts and in comments only. -/
theorem eq_of_blank (hmem : lexeme ∈ table) (h : lexeme.pattern.Matches u) (hu : c ∈ u)
    (hc : Text.isBlank c = true) : lexeme = blank ∨ lexeme = text ∨ lexeme = comment := by
  have hblank := toNat_of_isBlank hc
  cases lexeme with
  | blank => exact Or.inl rfl
  | text => exact Or.inr (Or.inl rfl)
  | comment => exact Or.inr (Or.inr rfl)
  | word =>
    have hword : continuesWord c = true := by
      cases u with
      | nil => cases hu
      | cons d u =>
        obtain ⟨hd, hrest⟩ := matches_seq_one_iff.mp h
        rcases List.mem_cons.mp hu with rfl | hu
        · exact continuesWord_of_startsWord hd
        · exact matches_many_one_iff.mp hrest c hu
    rcases startsWord_or_isDigit hword with hstart | hdigit
    · have hcode := toNat_of_startsWord hstart
      omega
    · have hcode := toNat_of_isDigit hdigit
      omega
  | number =>
    have hnumber : c.isDigit = true ∨ c = '.' := by
      obtain ⟨whole, ⟨_, hwhole⟩, rfl | ⟨fraction, ⟨_, hfraction⟩, rfl⟩⟩ := matches_number_iff.mp h
      · exact Or.inl (hwhole c hu)
      · rcases List.mem_append.mp hu with hu | hu
        · exact Or.inl (hwhole c hu)
        · rcases List.mem_cons.mp hu with hu | hu
          · exact Or.inr hu
          · exact Or.inl (hfraction c hu)
    rcases hnumber with hdigit | rfl
    · have hcode := toNat_of_isDigit hdigit
      omega
    · cases hc
  | mark kind spelling =>
    have hmarks : ∀ entry ∈ TokenKind.marks,
        (entry.2.toList.all fun d => !Text.isBlank d) = true := by decide +kernel
    rw [matches_literal_iff.mp h] at hu
    have hnone := List.all_eq_true.mp (hmarks _ (mem_marks_of_mem_table hmem)) c hu
    rw [hc] at hnone
    cases hnone

/-- A newline is matched in white space and in texts only. -/
theorem eq_of_newline (hmem : lexeme ∈ table) (h : lexeme.pattern.Matches u) (hu : '\n' ∈ u) :
    lexeme = blank ∨ lexeme = text := by
  rcases eq_of_blank hmem h hu (by decide) with hblank | htext | rfl
  · exact Or.inl hblank
  · exact Or.inr htext
  · obtain ⟨w, rfl, hw⟩ := matches_comment_iff.mp h
    have hmem : '\n' ∈ w := by simpa using hu
    exact absurd (matches_many_one_iff.mp hw _ hmem) (by decide)

end Classes

section Longest

variable {lexeme : Lexeme} {taken rest behind run : List Char}

/-- A run of blanks is taken as a whole where no blank follows it. -/
theorem longest_blank (hne : run ≠ []) (hrun : ∀ c ∈ run, Text.isBlank c = true)
    (hrest : ∀ c ∈ rest.head?, Text.isBlank c = false) : blank.Longest run (run ++ rest) := by
  refine ⟨by decide, List.prefix_append run rest, matches_some_iff.mpr ⟨hne, hrun⟩, ?_⟩
  intro other hother u hu hmatch
  by_contra hlonger
  obtain ⟨w, rfl⟩ := List.prefix_of_prefix_length_le (List.prefix_append run rest) hu (by omega)
  have hfront : w <+: rest := (List.prefix_append_right_inj run).mp hu
  cases w with
  | nil => simp at hlonger
  | cons d w =>
    obtain ⟨behind, rfl⟩ := hfront
    have hd : Text.isBlank d = false := hrest d rfl
    obtain ⟨c, run, rfl⟩ := List.exists_cons_of_ne_nil hne
    have hblank := eq_blank_of_opens hother (opens_of_matches hmatch) (hrun c List.mem_cons_self)
    subst hblank
    have hall := (matches_some_iff.mp hmatch).2 d (by simp)
    rw [hd] at hall
    cases hall

/-- White space is followed by no blank. -/
theorem Longest.head_of_blank (h : blank.Longest taken (taken ++ rest)) :
    ∀ c ∈ rest.head?, Text.isBlank c = false := by
  intro c hc
  obtain ⟨behind, rfl⟩ := List.head?_eq_some_iff.mp hc
  by_contra hblank
  have hall : ∀ d ∈ taken ++ [c], Text.isBlank d = true := by
    intro d hd
    rcases List.mem_append.mp hd with hd | hd
    · exact (matches_some_iff.mp h.matched).2 d hd
    · rw [List.mem_singleton.mp hd]
      simpa using hblank
  have hlonger := h.longest blank h.mem (taken ++ [c]) (by simp)
    (matches_some_iff.mpr ⟨by simp, hall⟩)
  rw [List.length_append, List.length_singleton] at hlonger
  omega

/-- What is not white space begins with no blank. -/
theorem Longest.head_of_ne_blank (h : lexeme.Longest taken (taken ++ rest)) (hne : lexeme ≠ blank) :
    ∀ c ∈ (taken ++ rest).head?, Text.isBlank c = false := by
  intro c hc
  by_contra hblank
  cases htaken : taken with
  | nil => exact h.nonempty htaken
  | cons d u =>
    rw [htaken] at hc
    cases hc
    refine hne (eq_blank_of_opens h.mem ?_ (by simpa using hblank))
    exact opens_of_matches (htaken ▸ h.matched)

/-- What stands at the front of a text ends before a character of the text or reaches across it. -/
theorem prefix_cons_cases {front u : List Char} {c : Char} (h : u <+: front ++ c :: behind) :
    u <+: front ∨ ∃ w, u = front ++ c :: w := by
  by_cases hwithin : u.length ≤ front.length
  · exact Or.inl (List.prefix_of_prefix_length_le h (List.prefix_append _ _) hwithin)
  · obtain ⟨w, rfl⟩ :=
      List.prefix_of_prefix_length_le (List.prefix_append front _) h (by omega)
    have hw := (List.prefix_append_right_inj front).mp h
    cases w with
    | nil => simp at hwithin
    | cons d w =>
      obtain ⟨rfl, _⟩ := List.cons_prefix_cons.mp hw
      exact Or.inr ⟨w, rfl⟩

/-- No class matches what begins with the longest lexeme and reaches across a newline behind the
text. Only white space and texts hold a newline; white space would have been taken up to it, and a
text stops at its closing quote. -/
theorem Longest.not_across_newline {other : Lexeme} (h : lexeme.Longest taken (taken ++ rest))
    (hnot : lexeme = blank → rest ≠ []) (hother : other ∈ table) :
    ¬ other.pattern.Matches (taken ++ rest ++ '\n' :: run) := by
  intro hmatch
  obtain ⟨c, t, htaken⟩ := List.exists_cons_of_ne_nil h.nonempty
  have hfirst : lexeme.Opens c := opens_of_matches (htaken ▸ h.matched)
  have hopens : other.Opens c := by
    rw [htaken] at hmatch
    exact opens_of_matches hmatch
  rcases eq_of_newline hother hmatch (by simp) with rfl | rfl
  · have hblank : lexeme = blank := by
      have hc : Text.isBlank c = true :=
        (matches_some_iff.mp hmatch).2 c (by simp [htaken])
      exact eq_blank_of_opens h.mem hfirst hc
    have hall : ∀ d ∈ taken ++ rest, Text.isBlank d = true := by
      intro d hd
      exact (matches_some_iff.mp hmatch).2 d (List.mem_append_left _ hd)
    have hlength := h.longest blank hother (taken ++ rest) (List.prefix_refl _)
      (matches_some_iff.mpr ⟨by simp [htaken], hall⟩)
    rw [List.length_append] at hlength
    exact hnot hblank (List.length_eq_zero_iff.mp (by omega))
  · have hquote : c = '"' := hopens
    subst hquote
    have htext : lexeme = text := eq_text_of_opens h.mem hfirst
    subst htext
    rw [List.append_assoc] at hmatch
    have hnone := text_prefix_free h.matched hmatch
    simp at hnone

/-- A newline behind a text changes nothing about the lexeme in front, unless it is white space that
reaches up to the newline. -/
theorem Longest.before_newline (h : lexeme.Longest taken (taken ++ rest))
    (hnot : lexeme = blank → rest ≠ []) :
    lexeme.Longest taken (taken ++ (rest ++ '\n' :: behind)) := by
  refine ⟨h.mem, List.prefix_append _ _, h.matched, fun other hother u hu hmatch => ?_⟩
  rw [← List.append_assoc] at hu
  rcases prefix_cons_cases hu with hfront | ⟨w, rfl⟩
  · exact h.longest other hother u hfront hmatch
  · exact absurd hmatch (h.not_across_newline hnot hother)

end Longest

end Lexeme

section Segments

/-- The kinds and the values of the tokens that segments make. -/
def Segment.words (segments : List Segment) : List (TokenKind × String) :=
  segments.filterMap fun segment => segment.lexeme.token? segment.taken

variable {cs ds left blanks : List Char} {segments others : List Segment}

theorem Segment.words_cons (segment : Segment) (segments : List Segment) :
    Segment.words (segment :: segments) =
      (segment.lexeme.token? segment.taken).toList ++ Segment.words segments := by
  unfold Segment.words
  rw [List.filterMap_cons]
  cases segment.lexeme.token? segment.taken <;> rfl

theorem isBlank_newline : Text.isBlank '\n' = true := by decide

theorem Segmentation.eq_nil (h : Segmentation [] segments left) : segments = [] := by
  cases hcons : segments with
  | nil => rfl
  | cons segment rest =>
    rw [hcons] at h
    have hnil := h.append
    obtain ⟨hne, _⟩ := h.matched segment List.mem_cons_self
    simp [Segment.written, hne] at hnil

/-- White space in front of a text makes no token of its own: it lengthens the white space that the
text begins with, or else stands before it. -/
theorem Segmentation.after_blanks (hne : blanks ≠ [])
    (hblanks : ∀ c ∈ blanks, Text.isBlank c = true) (h : Segmentation cs segments []) :
    ∃ wider, Segmentation (blanks ++ cs) wider [] ∧
      Segment.words wider = Segment.words segments := by
  cases h with
  | stop =>
    have hlongest : Lexeme.blank.Longest blanks (blanks ++ []) :=
      Lexeme.longest_blank hne hblanks (by simp)
    exact ⟨[⟨.blank, blanks⟩], .cut hlongest hne .stop, rfl⟩
  | @cut lexeme taken rest _ segments hlongest htaken k =>
    by_cases hblank : lexeme = .blank
    · subst hblank
      have hall : ∀ c ∈ blanks ++ taken, Text.isBlank c = true := by
        intro c hc
        rcases List.mem_append.mp hc with hc | hc
        · exact hblanks c hc
        · exact (Pattern.matches_some_iff.mp hlongest.matched).2 c hc
      have hne' : blanks ++ taken ≠ [] := List.append_ne_nil_of_left_ne_nil hne taken
      have hwider := Lexeme.longest_blank hne' hall hlongest.head_of_blank
      refine ⟨⟨.blank, blanks ++ taken⟩ :: segments, ?_, rfl⟩
      rw [← List.append_assoc]
      exact .cut hwider hne' k
    · have hfront := Lexeme.longest_blank hne hblanks (hlongest.head_of_ne_blank hblank)
      exact ⟨⟨.blank, blanks⟩ :: ⟨lexeme, taken⟩ :: segments,
        .cut hfront hne (.cut hlongest htaken k), rfl⟩

/-- Two texts with a newline between them are cut into segments with the tokens of the one and then
of the other. White space up to the newline goes on across it. -/
theorem Segmentation.join (h : Segmentation cs segments []) (k : Segmentation ds others []) :
    ∃ joined, Segmentation (cs ++ '\n' :: ds) joined [] ∧
      Segment.words joined = Segment.words segments ++ Segment.words others := by
  induction segments generalizing cs with
  | nil =>
    cases h
    have hnewline : ∀ c ∈ ['\n'], Text.isBlank c = true :=
      List.forall_mem_singleton.mpr isBlank_newline
    have hjoined := k.after_blanks (List.cons_ne_nil '\n' []) hnewline
    exact hjoined
  | cons segment segments ih =>
    cases h with
    | @cut lexeme taken rest _ _ hlongest hne hrest =>
      by_cases hlast : lexeme = .blank ∧ rest = []
      · obtain ⟨rfl, rfl⟩ := hlast
        have hblanks : ∀ c ∈ taken ++ ['\n'], Text.isBlank c = true := by
          intro c hc
          rcases List.mem_append.mp hc with hc | hc
          · exact (Pattern.matches_some_iff.mp hlongest.matched).2 c hc
          · rw [List.mem_singleton.mp hc]
            exact isBlank_newline
        obtain ⟨wider, hwider, hwords⟩ := k.after_blanks (by simp) hblanks
        refine ⟨wider, by simpa using hwider, ?_⟩
        rw [hwords, hrest.eq_nil]
        rfl
      · obtain ⟨joined, hjoined, hwords⟩ := ih hrest
        have hlonger : lexeme.Longest taken (taken ++ (rest ++ '\n' :: ds)) :=
          hlongest.before_newline fun hblank hnil => hlast ⟨hblank, hnil⟩
        refine ⟨⟨lexeme, taken⟩ :: joined, ?_, ?_⟩
        · rw [List.append_assoc]
          exact .cut hlonger hne hjoined
        · rw [Segment.words_cons, Segment.words_cons, hwords, List.append_assoc]

end Segments

def Token.word (t : Token) : TokenKind × String := (t.kind, t.value)

section Sources

/-- No lexeme makes a token of the kind that the end of a source has. -/
theorem kind_of_token? {lexeme : Lexeme} {taken : List Char} {kind : TokenKind} {value : String}
    (hmem : lexeme ∈ Lexeme.table) (h : lexeme.token? taken = some (kind, value)) :
    kind ≠ .eof := by
  cases lexeme with
  | number | text => cases h; decide
  | blank | comment => cases h
  | word =>
    cases h
    have hwords : ∀ entry ∈ TokenKind.words, entry.1 ≠ .eof := by decide
    cases hreserved : TokenKind.reserved? (String.ofList taken) with
    | none => simp
    | some kind =>
      obtain ⟨entry, hentry, rfl⟩ := Option.map_eq_some_iff.mp hreserved
      exact hwords entry (List.mem_of_find?_eq_some hentry)
  | mark kind' spelling =>
    cases h
    have hmarks : ∀ entry ∈ TokenKind.marks, entry.1 ≠ .eof := by decide
    exact hmarks _ (Lexeme.mem_marks_of_mem_table hmem)

theorem Segmentation.mem_table {cs left : List Char} {segments : List Segment}
    (h : Segmentation cs segments left) : ∀ segment ∈ segments, segment.lexeme ∈ Lexeme.table := by
  induction h with
  | stop => simp
  | cut h hne k ih => exact List.forall_mem_cons.mpr ⟨h.mem, ih⟩

/-- The tokens of segments are the tokens that each makes, and then the end. -/
theorem Segment.tokens_eq (file : String) : ∀ (segments : List Segment) (before : List Char),
    (∀ segment ∈ segments, segment.lexeme ∈ Lexeme.table) →
    ∃ tokens place, Segment.tokens file before segments = tokens ++ [.eofAt place] ∧
      tokens.map Token.word = Segment.words segments ∧ ∀ t ∈ tokens, t.kind ≠ .eof := by
  intro segments
  induction segments with
  | nil => intro before _; exact ⟨[], _, rfl, rfl, by simp⟩
  | cons segment segments ih =>
    intro before hmem
    obtain ⟨hfirst, hrest⟩ := List.forall_mem_cons.mp hmem
    obtain ⟨tokens, place, htokens, hwords, hkinds⟩ := ih (before ++ segment.taken) hrest
    refine ⟨(segment.token? file before).toList ++ tokens, place, ?_, ?_, ?_⟩
    · rw [Segment.tokens, htokens, List.append_assoc]
    · rw [List.map_append, hwords, Segment.words_cons, Segment.token?]
      cases segment.lexeme.token? segment.taken <;> rfl
    · intro t ht
      rcases List.mem_append.mp ht with ht | ht
      · obtain ⟨made, hmade, rfl⟩ := Option.map_eq_some_iff.mp (Option.mem_toList.mp ht)
        exact kind_of_token? hfirst hmade
      · exact hkinds t ht

/-- A text that is cut into segments to its end, with the kinds and the values of its tokens. -/
def Spells (cs : List Char) (words : List (TokenKind × String)) : Prop :=
  ∃ segments, Segmentation cs segments [] ∧ Segment.words segments = words

variable {source : Source} {words others : List (TokenKind × String)} {cs ds : List Char}

theorem spells_nil : Spells [] [] := ⟨[], .stop, rfl⟩

/-- Two texts with a newline between them spell what the one and then the other spells. -/
theorem Spells.join (h : Spells cs words) (k : Spells ds others) :
    Spells (cs ++ '\n' :: ds) (words ++ others) := by
  obtain ⟨segments, hcut, rfl⟩ := h
  obtain ⟨segments', hcut', rfl⟩ := k
  exact hcut.join hcut'

/-- A text that spells some words is a source with the tokens of these words, and the end behind
them. -/
theorem Spells.tokens (h : Spells source.text.toList words) :
    ∃ text place, source.tokens = .ok (text ++ [.eofAt place]) ∧ text.map Token.word = words ∧
      ∀ token ∈ text, token.kind ≠ .eof := by
  obtain ⟨segments, hcut, rfl⟩ := h
  obtain ⟨text, place, htokens, hwords, hkinds⟩ :=
    Segment.tokens_eq source.name segments [] hcut.mem_table
  refine ⟨text, place, ?_, hwords, hkinds⟩
  rw [← htokens]
  exact tokens_of_segmentation hcut

/-- The tokens of a source are those of the words that it spells, and the end behind them. -/
theorem spells_of_tokens {tokens : List Token} (h : source.tokens = .ok tokens) :
    ∃ text place, tokens = text ++ [.eofAt place] ∧
      Spells source.text.toList (text.map Token.word) ∧ ∀ token ∈ text, token.kind ≠ .eof := by
  obtain ⟨segments, hcut, rfl⟩ := tokens_eq_ok_iff.mp h
  obtain ⟨text, place, htokens, hwords, hkinds⟩ :=
    Segment.tokens_eq source.name segments [] hcut.mem_table
  exact ⟨text, place, htokens, ⟨segments, hcut, hwords.symm⟩, hkinds⟩

end Sources

end Piecewise
