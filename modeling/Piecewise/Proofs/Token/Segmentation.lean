import Piecewise.Proofs.Token.LongestMatch
import Piecewise.Token.Scan

/-!
# Sources in segments

A source is cut into segments, each the longest text at the front of what is left that any class of
lexemes matches. Its tokens are those of its segments, in order and at the places where the segments
stand, with the end of the source behind them. A source has no tokens exactly if its segments leave
a text behind that no class matches, and its fault is the first character of that text.
-/

namespace Piecewise

section Place

/-- The place in a file that a text before it leads to: the line is told by the newlines of the
text, the column by what follows the last of them. -/
def placeAfter (file : String) (before : List Char) : Position :=
  ⟨1 + before.count '\n', 1 + (before.reverse.takeWhile (· ≠ '\n')).length, file⟩

theorem after_placeAfter (file : String) (before : List Char) (c : Char) :
    (placeAfter file before).after c = placeAfter file (before ++ [c]) := by
  unfold Position.after placeAfter
  by_cases hc : c = '\n'
  · subst hc
    simp [Nat.add_assoc]
  · simp [hc, Nat.add_comm]

theorem afterAll_placeAfter (file : String) (before cs : List Char) :
    (placeAfter file before).afterAll cs = placeAfter file (before ++ cs) := by
  induction cs generalizing before with
  | nil => rw [List.append_nil]; rfl
  | cons c cs ih =>
    have hstep := ih (before ++ [c])
    rw [← after_placeAfter, List.append_assoc] at hstep
    exact hstep

end Place

/-- A text with the class of lexemes that takes it. -/
structure Segment where
  lexeme : Lexeme
  taken : List Char

def Segment.written (segments : List Segment) : List Char := segments.flatMap Segment.taken

/-- A text cut into segments from the front, with what they leave: every segment is the longest text
that any class matches where it stands. -/
inductive Segmentation : List Char → List Segment → List Char → Prop
  | stop {cs : List Char} : Segmentation cs [] cs
  | cut {lexeme : Lexeme} {taken rest left : List Char} {segments : List Segment}
      (h : lexeme.Longest taken (taken ++ rest)) (hne : taken ≠ [])
      (k : Segmentation rest segments left) :
      Segmentation (taken ++ rest) (⟨lexeme, taken⟩ :: segments) left

theorem Lexeme.Longest.nonempty {lexeme : Lexeme} {taken cs : List Char}
    (h : lexeme.Longest taken cs) : taken ≠ [] := by
  rintro rfl
  exact Lexeme.not_matches_nil h.mem h.matched

/-- Segments lose no character. -/
theorem Segmentation.append {cs left : List Char} {segments : List Segment}
    (h : Segmentation cs segments left) : cs = Segment.written segments ++ left := by
  induction h with
  | stop => rfl
  | cut h hne k ih => rw [ih]; simp [Segment.written]

/-- Every segment holds some text that its class matches. -/
theorem Segmentation.matched {cs left : List Char} {segments : List Segment}
    (h : Segmentation cs segments left) :
    ∀ segment ∈ segments, segment.taken ≠ [] ∧ segment.lexeme.pattern.Matches segment.taken := by
  induction h with
  | stop => simp
  | cut h hne k ih => exact List.forall_mem_cons.mpr ⟨⟨hne, h.matched⟩, ih⟩

/-- Every text is cut into segments up to its end or to a text that no class matches. No class takes
an empty text, so every segment leaves a shorter one. -/
theorem exists_segmentation (cs : List Char) : ∃ segments left, Segmentation cs segments left ∧
    (left = [] ∨ ∃ c rest, left = c :: rest ∧ Lexeme.Unmatched left) := by
  induction hlength : cs.length using Nat.strongRecOn generalizing cs with
  | ind n ih =>
    cases hfirst : Lexeme.first? cs with
    | none =>
      refine ⟨[], cs, .stop, ?_⟩
      cases cs with
      | nil => exact Or.inl rfl
      | cons c rest => exact Or.inr ⟨c, rest, rfl, Lexeme.first?_eq_none_iff.mp hfirst⟩
    | some found =>
      obtain ⟨lexeme, taken, rest⟩ := found
      obtain ⟨hlongest, rfl⟩ := Lexeme.first?_eq_some_iff.mp hfirst
      have hpos : 0 < taken.length := List.length_pos_iff.mpr hlongest.nonempty
      have hshorter : rest.length < n := by
        rw [← hlength, List.length_append]
        omega
      obtain ⟨segments, left, hcut, hleft⟩ := ih rest.length hshorter rest rfl
      exact ⟨_, left, .cut hlongest hlongest.nonempty hcut, hleft⟩

def Segment.token? (file : String) (before : List Char) (segment : Segment) : Option Token :=
  let start := placeAfter file before
  (segment.lexeme.token? segment.taken).map fun (kind, value) =>
    ⟨kind, value, ⟨start, { start with column := start.column + segment.taken.length }⟩⟩

/-- The tokens of segments that stand in a file after the text before them, with the end. -/
def Segment.tokens (file : String) (before : List Char) : List Segment → List Token
  | [] => [.eofAt (placeAfter file before)]
  | segment :: segments =>
    (segment.token? file before).toList ++ tokens file (before ++ segment.taken) segments

/-- White space and comments make no token, and every other segment makes one. -/
theorem token?_eq_none_iff {file : String} {before : List Char} {segment : Segment} :
    segment.token? file before = none ↔ segment.lexeme = .blank ∨ segment.lexeme = .comment := by
  obtain ⟨lexeme, taken⟩ := segment
  cases lexeme <;> simp [Segment.token?, Lexeme.token?]

/-- A token, unless it is a text, is spelled like the segment that makes it. -/
theorem value_of_token? {file : String} {before : List Char} {segment : Segment} {t : Token}
    (h : segment.lexeme.pattern.Matches segment.taken) (ht : segment.token? file before = some t) :
    t.kind = .text ∨ t.value.toList = segment.taken := by
  obtain ⟨lexeme, taken⟩ := segment
  obtain ⟨made, hmade, rfl⟩ := Option.map_eq_some_iff.mp ht
  cases lexeme with
  | word => cases hmade; exact Or.inr String.toList_ofList
  | number => cases hmade; exact Or.inr String.toList_ofList
  | text => cases hmade; exact Or.inl rfl
  | mark kind spelling => cases hmade; exact Or.inr (Pattern.matches_literal_iff.mp h).symm
  | blank => cases hmade
  | comment => cases hmade

section Scan

variable {file : String} {before cs : List Char} {segments : List Segment} {n : Nat}

/-- The first segment is taken off the front, and what follows it is cut in the same way. -/
theorem tokensWithin_cut {lexeme : Lexeme} {taken rest : List Char}
    (h : lexeme.Longest taken (taken ++ rest)) :
    (Cursor.mk (placeAfter file before) (taken ++ rest)).tokensWithin (n + 1) =
      ((Cursor.mk (placeAfter file (before ++ taken)) rest).tokensWithin n).map fun tokens =>
        (Segment.token? file before ⟨lexeme, taken⟩).toList ++ tokens := by
  have hfirst : Lexeme.first? (taken ++ rest) = some (lexeme, taken, rest) :=
    Lexeme.first?_eq_some_iff.mpr ⟨h, rfl⟩
  obtain ⟨c, cs, hcs⟩ :=
    List.exists_cons_of_ne_nil (List.append_ne_nil_of_left_ne_nil h.nonempty rest)
  rw [hcs] at hfirst ⊢
  simp only [Cursor.tokensWithin, hfirst, Cursor.past, afterAll_placeAfter, Segment.token?,
    Cursor.spanOf]
  cases htokens : (Cursor.mk (placeAfter file (before ++ taken)) rest).tokensWithin n with
  | error d => rfl
  | ok tokens =>
    cases lexeme.token? taken with
    | none => rfl
    | some made => rfl

/-- A text in segments with nothing left has the tokens of its segments. -/
theorem tokensWithin_of_segmentation (h : Segmentation cs segments []) (hn : cs.length ≤ n) :
    (Cursor.mk (placeAfter file before) cs).tokensWithin n =
      .ok (Segment.tokens file before segments) := by
  induction segments generalizing cs before n with
  | nil =>
    cases h
    cases n <;> rfl
  | cons segment segments ih =>
    cases h with
    | @cut lexeme taken rest _ _ hlongest hne k =>
      have hpos : 0 < taken.length := List.length_pos_iff.mpr hne
      rw [List.length_append] at hn
      obtain ⟨n, rfl⟩ := Nat.exists_eq_add_of_lt (show 0 < n by omega)
      rw [Nat.zero_add, tokensWithin_cut hlongest, ih k (by omega)]
      rfl

/-- Where segments leave a text that no class matches, its first character is the fault. -/
theorem tokensWithin_of_unmatched {c : Char} {rest : List Char}
    (h : Segmentation cs segments (c :: rest)) (hrest : Lexeme.Unmatched (c :: rest))
    (hn : cs.length ≤ n) :
    (Cursor.mk (placeAfter file before) cs).tokensWithin n =
      .error ((Fault.unrecognisedToken (String.singleton c)).at
        (placeAfter file (before ++ Segment.written segments))) := by
  induction segments generalizing cs before n with
  | nil =>
    cases h
    cases n with
    | zero => cases hn
    | succ n =>
      simp only [Cursor.tokensWithin, Lexeme.first?_eq_none_iff.mpr hrest, Segment.written,
        List.flatMap_nil, List.append_nil]
  | cons segment segments ih =>
    cases h with
    | @cut lexeme taken behind _ _ hlongest hne k =>
      have hpos : 0 < taken.length := List.length_pos_iff.mpr hne
      rw [List.length_append] at hn
      obtain ⟨n, rfl⟩ := Nat.exists_eq_add_of_lt (show 0 < n by omega)
      rw [Nat.zero_add, tokensWithin_cut hlongest, ih k (by omega), List.append_assoc]
      rfl

end Scan

section Sources

variable {source : Source} {segments : List Segment}

theorem tokens_eq_tokensWithin (source : Source) : source.tokens =
    (Cursor.mk (placeAfter source.name []) source.text.toList).tokensWithin
      source.text.toList.length := rfl

theorem tokens_of_segmentation (h : Segmentation source.text.toList segments []) :
    source.tokens = .ok (Segment.tokens source.name [] segments) := by
  rw [tokens_eq_tokensWithin, tokensWithin_of_segmentation h (Nat.le_refl _)]

theorem tokens_of_unmatched {c : Char} {rest : List Char}
    (h : Segmentation source.text.toList segments (c :: rest))
    (hrest : Lexeme.Unmatched (c :: rest)) :
    source.tokens = .error ((Fault.unrecognisedToken (String.singleton c)).at
      (placeAfter source.name (Segment.written segments))) := by
  rw [tokens_eq_tokensWithin, tokensWithin_of_unmatched h hrest (Nat.le_refl _), List.nil_append]

theorem tokens_eq_ok_iff {tokens : List Token} : source.tokens = .ok tokens ↔
    ∃ segments, Segmentation source.text.toList segments [] ∧
      tokens = Segment.tokens source.name [] segments := by
  constructor
  · intro h
    obtain ⟨segments, left, hcut, rfl | ⟨c, rest, rfl, hrest⟩⟩ :=
      exists_segmentation source.text.toList
    · rw [tokens_of_segmentation hcut] at h
      exact ⟨segments, hcut, (Except.ok.inj h).symm⟩
    · rw [tokens_of_unmatched hcut hrest] at h
      cases h
  · rintro ⟨segments, h, rfl⟩
    exact tokens_of_segmentation h

theorem tokens_eq_error_iff {d : Diagnostic} : source.tokens = .error d ↔
    ∃ segments c rest, Segmentation source.text.toList segments (c :: rest) ∧
      Lexeme.Unmatched (c :: rest) ∧
      d = (Fault.unrecognisedToken (String.singleton c)).at
        (placeAfter source.name (Segment.written segments)) := by
  constructor
  · intro h
    obtain ⟨segments, left, hcut, rfl | ⟨c, rest, rfl, hrest⟩⟩ :=
      exists_segmentation source.text.toList
    · rw [tokens_of_segmentation hcut] at h
      cases h
    · rw [tokens_of_unmatched hcut hrest] at h
      exact ⟨segments, c, rest, hcut, hrest, (Except.error.inj h).symm⟩
  · rintro ⟨segments, c, rest, h, hrest, rfl⟩
    exact tokens_of_unmatched h hrest

end Sources

/-- A source has tokens exactly if it is cut into segments to its end, and they are those of the
segments. It has a fault exactly if its segments leave a text that no class of lexemes matches, and
the fault is the first character of that text, at its place. Segments lose no character; each is
white space, a comment or the lexeme of one token, and is what the first class of the table that
matches anything takes. -/
theorem tokens_segmentation (source : Source) :
    (∀ tokens, source.tokens = .ok tokens ↔
      ∃ segments, Segmentation source.text.toList segments [] ∧
        tokens = Segment.tokens source.name [] segments) ∧
    (∀ d, source.tokens = .error d ↔
      ∃ segments c rest, Segmentation source.text.toList segments (c :: rest) ∧
        Lexeme.Unmatched (c :: rest) ∧
        d = (Fault.unrecognisedToken (String.singleton c)).at
          (placeAfter source.name (Segment.written segments))) ∧
    (∀ segments left, Segmentation source.text.toList segments left →
      source.text.toList = Segment.written segments ++ left ∧
      ∀ segment ∈ segments, segment.taken ≠ [] ∧ ∀ before,
        (segment.token? source.name before = none ↔
          segment.lexeme = .blank ∨ segment.lexeme = .comment) ∧
        ∀ t, segment.token? source.name before = some t →
          t.kind = .text ∨ t.value.toList = segment.taken) ∧
    ∀ (lexeme : Lexeme) (taken cs : List Char),
      lexeme.Longest taken cs ↔ lexeme.FirstMatch taken cs := by
  refine ⟨fun tokens => tokens_eq_ok_iff, fun d => tokens_eq_error_iff,
    fun segments left h => ⟨h.append, fun segment hmem => ?_⟩,
    fun lexeme taken cs => Lexeme.longest_iff_firstMatch⟩
  obtain ⟨hne, hmatched⟩ := h.matched segment hmem
  exact ⟨hne, fun before => ⟨token?_eq_none_iff, fun t => value_of_token? hmatched⟩⟩

end Piecewise
