import Mathlib.Data.List.Infix
import Mathlib.Data.List.Pairwise
import Piecewise.Proofs.Token.Pattern

/-!
# Longest matches

Every class of lexemes takes the longest text at the front that its pattern matches, and nothing
only where its pattern matches nothing. The table is in an order in which what a class takes is
longer than anything that a later class matches there: the first class that takes anything takes
the longest text that any pattern matches, and no other class matches so much.
-/

namespace Piecewise

namespace Pattern

/-- An outcome at the front of a text: the longest text there that the pattern matches with the
text behind it, or nothing if the pattern matches nothing there. -/
def TakesLongest (p : Pattern) (cs : List Char) : Option (List Char × List Char) → Prop
  | .some (taken, rest) => cs = taken ++ rest ∧ p.Matches taken ∧
      ∀ u, u <+: cs → p.Matches u → u.length ≤ taken.length
  | .none => ∀ u, u <+: cs → ¬ p.Matches u

theorem takesLongest_nil {p : Pattern} (h : ¬ p.Matches []) : p.TakesLongest [] .none := by
  intro u hu hmatch
  rw [List.prefix_nil.mp hu] at hmatch
  exact h hmatch

/-- Where what a pattern matches is a character and then what another pattern matches, the longest
match of the one gives that of the other. -/
theorem TakesLongest.cons {p q : Pattern} {c : Char} {cs : List Char}
    {outcome : Option (List Char × List Char)} (h : q.TakesLongest cs outcome)
    (hp : ∀ u, p.Matches (c :: u) ↔ q.Matches u) (hnil : ¬ p.Matches []) :
    p.TakesLongest (c :: cs) (outcome.map fun (taken, left) => (c :: taken, left)) := by
  have hinside : ∀ u, u <+: c :: cs → p.Matches u → ∃ v, v <+: cs ∧ q.Matches v ∧ u = c :: v := by
    intro u hu hmatch
    cases u with
    | nil => exact absurd hmatch hnil
    | cons d v =>
      obtain ⟨rfl, hv⟩ := List.cons_prefix_cons.mp hu
      exact ⟨v, hv, (hp v).mp hmatch, rfl⟩
  cases outcome with
  | none =>
    intro u hu hmatch
    obtain ⟨v, hv, hq, _⟩ := hinside u hu hmatch
    exact h v hv hq
  | some parts =>
    obtain ⟨rfl, htaken, hlongest⟩ := h
    refine ⟨rfl, (hp _).mpr htaken, fun u hu hmatch => ?_⟩
    obtain ⟨v, hv, hq, rfl⟩ := hinside u hu hmatch
    exact Nat.succ_le_succ (hlongest v hv hq)

end Pattern

namespace Lexeme

open Pattern

/-- A text at the front, all of a class, lies in the longest run of the class. -/
theorem prefix_takeWhile {p : Char → Bool} {u cs : List Char} (h : u <+: cs)
    (hu : ∀ c ∈ u, p c = true) : u <+: cs.takeWhile p := by
  obtain ⟨rest, rfl⟩ := h
  rw [List.takeWhile_append_of_pos hu]
  exact List.prefix_append u _

theorem forall_takeWhile {p : Char → Bool} (cs : List Char) :
    ∀ c ∈ cs.takeWhile p, p c = true :=
  List.all_eq_true.mp List.all_takeWhile

/-- A text at the front, all of a class up to a character that is not, ends where the longest run
of the class ends. -/
theorem takeWhile_of_prefix {p : Char → Bool} {u v cs : List Char} {c : Char}
    (h : u ++ c :: v <+: cs) (hu : ∀ d ∈ u, p d = true) (hc : p c = false) :
    cs.takeWhile p = u ∧ c :: v <+: cs.dropWhile p := by
  obtain ⟨rest, rfl⟩ := h
  rw [List.append_assoc, List.takeWhile_append_of_pos hu, List.dropWhile_append_of_pos hu]
  simp [hc]

theorem takesLongest_many {p : Char → Bool} (cs : List Char) :
    (Pattern.many (.one p)).TakesLongest cs (.some (cs.takeWhile p, cs.dropWhile p)) := by
  refine ⟨by simp, matches_many_one_iff.mpr (forall_takeWhile cs), fun u hu hmatch => ?_⟩
  exact (prefix_takeWhile hu (matches_many_one_iff.mp hmatch)).length_le

/-- A first character of one class and then the longest run of another. -/
theorem takesLongest_run {p q : Char → Bool} {c : Char} {cs : List Char} (hc : p c = true) :
    (Pattern.seq (.one p) (.many (.one q))).TakesLongest (c :: cs)
      (.some (c :: cs.takeWhile q, cs.dropWhile q)) :=
  (takesLongest_many cs).cons (fun u => by simp [matches_seq_one_iff, hc])
    not_matches_seq_one_nil

theorem takesLongest_none {p : Char → Bool} {second : Pattern} {c : Char} {cs : List Char}
    (hc : p c = false) : (Pattern.seq (.one p) second).TakesLongest (c :: cs) .none := by
  intro u hu hmatch
  cases u with
  | nil => exact not_matches_seq_one_nil hmatch
  | cons d u =>
    obtain ⟨rfl, _⟩ := List.cons_prefix_cons.mp hu
    rw [(matches_seq_one_iff.mp hmatch).1] at hc
    cases hc

/-- A run of a class begins with a character of the class, and takes it. -/
theorem spanWhile_cons {p : Char → Bool} {c : Char} {cs : List Char} (hc : p c = true) :
    spanWhile p (c :: cs) = (c :: cs.takeWhile p, cs.dropWhile p) := by
  simp [spanWhile, hc]

section Words

theorem continuesWord_of_startsWord {c : Char} (h : startsWord c = true) :
    continuesWord c = true := by
  unfold startsWord at h
  unfold continuesWord Char.isAlphanum
  simp only [Bool.or_eq_true] at h ⊢
  rcases h with h | h
  · exact Or.inl (Or.inl h)
  · exact Or.inr h

theorem word_takesLongest (cs : List Char) : word.pattern.TakesLongest cs (word.split? cs) := by
  cases cs with
  | nil => exact takesLongest_nil not_matches_seq_one_nil
  | cons c cs =>
    rw [split?]
    by_cases hc : startsWord c = true
    · rw [if_pos hc, spanWhile_cons (continuesWord_of_startsWord hc)]
      exact takesLongest_run hc
    · rw [if_neg hc]
      exact takesLongest_none (by simpa using hc)

theorem blank_takesLongest (cs : List Char) : blank.pattern.TakesLongest cs (blank.split? cs) := by
  cases cs with
  | nil => exact takesLongest_nil not_matches_seq_one_nil
  | cons c cs =>
    rw [split?]
    by_cases hc : Text.isBlank c = true
    · rw [if_pos hc, spanWhile_cons hc]
      exact takesLongest_run hc
    · rw [if_neg hc]
      exact takesLongest_none (by simpa using hc)

end Words

section Numbers

/-- A number is a run of digits, or two with a point between them. -/
theorem matches_number_iff {u : List Char} : number.pattern.Matches u ↔
    ∃ whole, (whole ≠ [] ∧ ∀ c ∈ whole, c.isDigit = true) ∧
      (u = whole ∨ ∃ fraction, (fraction ≠ [] ∧ ∀ c ∈ fraction, c.isDigit = true) ∧
        u = whole ++ '.' :: fraction) := by
  have htail : ∀ w, Matches (.either (.seq (.one (· = '.')) (.some Char.isDigit)) .empty) w ↔
      w = [] ∨ ∃ fraction, (fraction ≠ [] ∧ ∀ c ∈ fraction, c.isDigit = true) ∧
        w = '.' :: fraction := by
    intro w
    rw [matches_either_iff, matches_empty_iff, or_comm]
    refine or_congr Iff.rfl ?_
    cases w with
    | nil => simp [not_matches_seq_one_nil]
    | cons c w => simp [matches_seq_one_iff, matches_some_iff, and_comm]
  unfold pattern
  rw [matches_seq_iff]
  simp only [matches_some_iff, htail]
  constructor
  · rintro ⟨whole, w, hwhole, hw | ⟨fraction, hfraction, hw⟩, rfl⟩
    · exact ⟨whole, hwhole, Or.inl (by simp [hw])⟩
    · exact ⟨whole, hwhole, Or.inr ⟨fraction, hfraction, by simp [hw]⟩⟩
  · rintro ⟨whole, hwhole, hu | ⟨fraction, hfraction, hu⟩⟩
    · exact ⟨whole, [], hwhole, Or.inl rfl, by simp [hu]⟩
    · exact ⟨whole, '.' :: fraction, hwhole, Or.inr ⟨fraction, hfraction, rfl⟩, hu⟩

theorem matches_number_whole {whole : List Char} (hne : whole ≠ [])
    (h : ∀ c ∈ whole, c.isDigit = true) : number.pattern.Matches whole :=
  matches_number_iff.mpr ⟨whole, ⟨hne, h⟩, Or.inl rfl⟩

/-- Without a point and a digit behind the first run of digits, that run is the whole number. -/
theorem whole_takesLongest {cs : List Char} (hne : cs.takeWhile Char.isDigit ≠ [])
    (hpoint : ∀ rest, cs.dropWhile Char.isDigit = '.' :: rest → rest.takeWhile Char.isDigit = []) :
    number.pattern.TakesLongest cs
      (.some (cs.takeWhile Char.isDigit, cs.dropWhile Char.isDigit)) := by
  refine ⟨by simp, matches_number_whole hne (forall_takeWhile cs), fun u hu hmatch => ?_⟩
  obtain ⟨whole, ⟨_, hwhole⟩, rfl | ⟨fraction, ⟨hfraction, hdigits⟩, rfl⟩⟩ :=
    matches_number_iff.mp hmatch
  · exact (prefix_takeWhile hu hwhole).length_le
  · obtain ⟨_, rest, hrest⟩ := takeWhile_of_prefix hu hwhole (by decide)
    have hnone := hpoint (fraction ++ rest) (by rw [← hrest]; rfl)
    rw [List.takeWhile_append_of_pos hdigits] at hnone
    exact absurd (List.append_eq_nil_iff.mp hnone).1 hfraction

/-- A fraction behind the first run of digits belongs to the number. -/
theorem fraction_takesLongest {cs rest : List Char} (hne : cs.takeWhile Char.isDigit ≠ [])
    (hpoint : cs.dropWhile Char.isDigit = '.' :: rest)
    (hfraction : rest.takeWhile Char.isDigit ≠ []) :
    number.pattern.TakesLongest cs
      (.some (cs.takeWhile Char.isDigit ++ '.' :: rest.takeWhile Char.isDigit,
        rest.dropWhile Char.isDigit)) := by
  have hsplit : cs = cs.takeWhile Char.isDigit ++ '.' :: rest := by
    rw [← hpoint, List.takeWhile_append_dropWhile]
  refine ⟨?_, ?_, fun u hu hmatch => ?_⟩
  · rw [List.append_assoc, List.cons_append, List.takeWhile_append_dropWhile, ← hsplit]
  · exact matches_number_iff.mpr ⟨_, ⟨hne, forall_takeWhile cs⟩,
      Or.inr ⟨_, ⟨hfraction, forall_takeWhile rest⟩, rfl⟩⟩
  obtain ⟨whole, ⟨_, hwhole⟩, rfl | ⟨fraction, ⟨_, hdigits⟩, rfl⟩⟩ :=
    matches_number_iff.mp hmatch
  · have hle := (prefix_takeWhile hu hwhole).length_le
    simp only [List.length_append]
    omega
  · obtain ⟨hsame, hbehind⟩ := takeWhile_of_prefix hu hwhole (by decide)
    rw [hpoint] at hbehind
    have hle := (prefix_takeWhile (List.cons_prefix_cons.mp hbehind).2 hdigits).length_le
    simp only [hsame, List.length_append, List.length_cons]
    omega

theorem number_takesLongest (cs : List Char) :
    number.pattern.TakesLongest cs (number.split? cs) := by
  have hstep : number.split? cs = splitNumber? cs := by simp [split?]
  rw [hstep]
  unfold splitNumber? spanWhile
  split
  · rename_i hspan
    have hnone : cs.takeWhile Char.isDigit = [] := congrArg Prod.fst hspan
    intro u hu hmatch
    obtain ⟨whole, ⟨hne, hwhole⟩, hcases⟩ := matches_number_iff.mp hmatch
    have hprefix : whole <+: cs := by
      rcases hcases with rfl | ⟨fraction, _, rfl⟩
      · exact hu
      · exact (List.prefix_append whole _).trans hu
    have hle := prefix_takeWhile hprefix hwhole
    rw [hnone] at hle
    exact hne (List.prefix_nil.mp hle)
  · rename_i whole rest hne hspan
    obtain ⟨rfl, hpoint⟩ := Prod.mk.inj hspan
    have hwhole : cs.takeWhile Char.isDigit ≠ [] := hne
    split
    · rename_i hspan'
      have hnone : rest.takeWhile Char.isDigit = [] := congrArg Prod.fst hspan'
      rw [← hpoint]
      refine whole_takesLongest hwhole fun rest' hrest' => ?_
      rw [hpoint] at hrest'
      cases hrest'
      exact hnone
    · rename_i fraction behind hfraction hspan'
      obtain ⟨rfl, rfl⟩ := Prod.mk.inj hspan'
      exact fraction_takesLongest hwhole hpoint hfraction
  · rename_i whole rest hne hpoint hspan
    obtain ⟨rfl, rfl⟩ := Prod.mk.inj hspan
    exact whole_takesLongest hne fun rest' hrest' => (hpoint rest' hrest').elim

end Numbers

section Texts

/-- What follows the opening quote of a text. -/
def textBody : Pattern := .seq (.many textItem) (.one (· = '"'))

theorem not_matches_textBody_nil : ¬ textBody.Matches [] := by
  unfold textBody
  rw [matches_seq_iff]
  rintro ⟨v, w, _, hw, heq⟩
  obtain ⟨c, _, rfl⟩ := matches_one_iff.mp hw
  simp at heq

/-- A body is the closing quote, or an item and then a body. -/
theorem matches_textBody_iff {u : List Char} : textBody.Matches u ↔
    u = ['"'] ∨ ∃ v w, textItem.Matches v ∧ textBody.Matches w ∧ u = v ++ w := by
  unfold textBody
  constructor
  · intro h
    obtain ⟨items, quote, hitems, hquote, rfl⟩ := matches_seq_iff.mp h
    rcases matches_many_iff.mp hitems with rfl | ⟨v, w, hv, hw, rfl⟩
    · obtain ⟨c, hc, rfl⟩ := matches_one_iff.mp hquote
      exact Or.inl (by simpa using hc)
    · exact Or.inr ⟨v, w ++ quote, hv, .seq hw hquote, List.append_assoc v w quote⟩
  · rintro (rfl | ⟨v, w, hv, hw, rfl⟩)
    · exact .seq .none (.one rfl)
    · obtain ⟨items, quote, hitems, hquote, rfl⟩ := matches_seq_iff.mp hw
      rw [← List.append_assoc]
      exact .seq (.more hv hitems) hquote

/-- An item is a backslash with a character that is no newline, or an ordinary character. -/
theorem matches_textItem_iff {u : List Char} : textItem.Matches u ↔
    (∃ c, c ≠ '\n' ∧ u = ['\\', c]) ∨ ∃ c, (c ≠ '"' ∧ c ≠ '\\') ∧ u = [c] := by
  unfold textItem
  rw [matches_either_iff, matches_seq_iff]
  simp only [matches_one_iff]
  constructor
  · rintro (⟨v, w, ⟨c, hc, rfl⟩, ⟨d, hd, rfl⟩, rfl⟩ | ⟨c, hc, rfl⟩)
    · have hback : c = '\\' := by simpa using hc
      exact Or.inl ⟨d, by simpa using hd, by simp [hback]⟩
    · exact Or.inr ⟨c, by simpa using hc, rfl⟩
  · rintro (⟨c, hc, rfl⟩ | ⟨c, hc, rfl⟩)
    · exact Or.inl ⟨['\\'], [c], ⟨'\\', by simp, rfl⟩, ⟨c, by simpa using hc, rfl⟩, rfl⟩
    · exact Or.inr ⟨c, by simpa using hc, rfl⟩

theorem matches_textBody_quote {u : List Char} : textBody.Matches ('"' :: u) ↔ u = [] := by
  rw [matches_textBody_iff]
  constructor
  · rintro (heq | ⟨v, w, hv, _, heq⟩)
    · simpa using heq
    · rcases matches_textItem_iff.mp hv with ⟨c, _, rfl⟩ | ⟨c, hc, rfl⟩
      · cases heq
      · cases heq
        exact absurd rfl hc.1
  · rintro rfl
    exact Or.inl rfl

theorem matches_textBody_backslash {u : List Char} : textBody.Matches ('\\' :: u) ↔
    ∃ c v, c ≠ '\n' ∧ textBody.Matches v ∧ u = c :: v := by
  rw [matches_textBody_iff]
  constructor
  · rintro (heq | ⟨v, w, hv, hw, heq⟩)
    · cases heq
    · rcases matches_textItem_iff.mp hv with ⟨c, hc, rfl⟩ | ⟨c, hc, rfl⟩
      · cases heq
        exact ⟨c, w, hc, hw, rfl⟩
      · cases heq
        exact absurd rfl hc.2
  · rintro ⟨c, v, hc, hv, rfl⟩
    exact Or.inr ⟨['\\', c], v, matches_textItem_iff.mpr (Or.inl ⟨c, hc, rfl⟩), hv, rfl⟩

theorem matches_textBody_cons {c : Char} {u : List Char} (hquote : c ≠ '"')
    (hback : c ≠ '\\') : textBody.Matches (c :: u) ↔ textBody.Matches u := by
  rw [matches_textBody_iff]
  constructor
  · rintro (heq | ⟨v, w, hv, hw, heq⟩)
    · cases heq
      exact absurd rfl hquote
    · rcases matches_textItem_iff.mp hv with ⟨d, _, rfl⟩ | ⟨d, _, rfl⟩
      · cases heq
        exact absurd rfl hback
      · cases heq
        exact hw
  · intro hu
    exact Or.inr ⟨[c], u, matches_textItem_iff.mpr (Or.inr ⟨c, ⟨hquote, hback⟩, rfl⟩), hu, rfl⟩

/-- Of a text after its opening quote, all is taken up to the first quote that no backslash
stands before. -/
theorem textBody_takesLongest (cs : List Char) :
    textBody.TakesLongest cs (splitTextBody? cs) := by
  induction cs using splitTextBody?.induct with
  | case1 => exact takesLongest_nil not_matches_textBody_nil
  | case2 rest =>
    refine ⟨rfl, matches_textBody_quote.mpr rfl, fun u hu hmatch => ?_⟩
    cases u with
    | nil => simp
    | cons c u =>
      obtain ⟨rfl, _⟩ := List.cons_prefix_cons.mp hu
      simp [matches_textBody_quote.mp hmatch]
  | case3 rest =>
    have hstep : splitTextBody? ('\\' :: '\n' :: rest) = none := by simp [splitTextBody?]
    rw [hstep]
    intro u hu hmatch
    cases u with
    | nil => exact not_matches_textBody_nil hmatch
    | cons c u =>
      obtain ⟨rfl, hrest⟩ := List.cons_prefix_cons.mp hu
      obtain ⟨d, v, hd, _, rfl⟩ := matches_textBody_backslash.mp hmatch
      exact hd (List.cons_prefix_cons.mp hrest).1
  | case4 c rest hc ih =>
    have hstep : splitTextBody? ('\\' :: c :: rest) =
        ((splitTextBody? rest).map fun (taken, left) => (c :: taken, left)).map
          fun (taken, left) => ('\\' :: taken, left) := by
      simp [splitTextBody?, hc, Function.comp_def]
    have hpair : (Pattern.seq (.one (· ≠ '\n')) textBody).TakesLongest (c :: rest)
        ((splitTextBody? rest).map fun (taken, left) => (c :: taken, left)) :=
      ih.cons (fun u => by simp [matches_seq_one_iff, hc]) not_matches_seq_one_nil
    rw [hstep]
    refine hpair.cons (fun u => ?_) not_matches_textBody_nil
    rw [matches_textBody_backslash]
    cases u with
    | nil => simp [not_matches_seq_one_nil]
    | cons d u => simp [matches_seq_one_iff]
  | case5 rest _ hlast =>
    have hnil : rest = [] := by
      cases rest with
      | nil => rfl
      | cons c rest => exact (hlast c rest rfl rfl).elim
    subst hnil
    intro u hu hmatch
    cases u with
    | nil => exact not_matches_textBody_nil hmatch
    | cons c u =>
      obtain ⟨rfl, hrest⟩ := List.cons_prefix_cons.mp hu
      obtain ⟨d, v, _, _, rfl⟩ := matches_textBody_backslash.mp hmatch
      cases List.prefix_nil.mp hrest
  | case6 c rest hquote _ hback ih =>
    have hstep : splitTextBody? (c :: rest) =
        (splitTextBody? rest).map fun (taken, left) => (c :: taken, left) := by
      rw [splitTextBody?.eq_4 c rest hquote (fun d rest' hc _ => hback hc), if_neg hback]
    rw [hstep]
    exact ih.cons (fun u => matches_textBody_cons hquote hback) not_matches_textBody_nil

theorem text_takesLongest (cs : List Char) : text.pattern.TakesLongest cs (text.split? cs) := by
  cases cs with
  | nil => exact takesLongest_nil not_matches_seq_one_nil
  | cons c cs =>
    by_cases hc : c = '"'
    · subst hc
      refine (textBody_takesLongest cs).cons (fun u => ?_) not_matches_seq_one_nil
      simp [pattern, matches_seq_one_iff, textBody]
    · have hstep : text.split? (c :: cs) = none := by simp [split?, hc]
      rw [hstep]
      exact takesLongest_none (by simpa using hc)

end Texts

section Marks

/-- Two slashes and then characters other than a newline. -/
theorem matches_comment_iff {u : List Char} : comment.pattern.Matches u ↔
    ∃ v, u = '/' :: '/' :: v ∧ (Pattern.many (.one (· ≠ '\n'))).Matches v := by
  unfold pattern
  cases u with
  | nil => simp [not_matches_seq_one_nil]
  | cons c u =>
    cases u with
    | nil => simp [matches_seq_one_iff, not_matches_seq_one_nil]
    | cons d u => simp [matches_seq_one_iff, and_assoc]

theorem comment_takesLongest (cs : List Char) :
    comment.pattern.TakesLongest cs (comment.split? cs) := by
  by_cases h : ∃ rest, cs = '/' :: '/' :: rest
  · obtain ⟨rest, rfl⟩ := h
    have hline : (Pattern.seq (.one (· = '/')) (.many (.one (· ≠ '\n')))).TakesLongest
        ('/' :: rest) (some ('/' :: rest.takeWhile (· ≠ '\n'), rest.dropWhile (· ≠ '\n'))) :=
      takesLongest_run (by simp)
    exact hline.cons (fun u => by simp [pattern, matches_seq_one_iff]) not_matches_seq_one_nil
  · have hstep : comment.split? cs = none := by
      unfold split?
      split <;> simp_all
    rw [hstep]
    intro u hu hmatch
    obtain ⟨v, rfl, _⟩ := matches_comment_iff.mp hmatch
    obtain ⟨rest, rfl⟩ := hu
    exact h ⟨v ++ rest, rfl⟩

theorem mark_takesLongest (kind : TokenKind) (spelling : String) (cs : List Char) :
    (mark kind spelling).pattern.TakesLongest cs ((mark kind spelling).split? cs) := by
  have hstep : (mark kind spelling).split? cs =
      (spelling.toList.isPrefixOf? cs).map fun left => (spelling.toList, left) := by
    simp [split?]
  rw [hstep]
  cases hprefix : spelling.toList.isPrefixOf? cs with
  | none =>
    intro u hu hmatch
    obtain ⟨rest, rfl⟩ := hu
    rw [matches_literal_iff.mp hmatch] at hprefix
    have hsome : spelling.toList.isPrefixOf? (spelling.toList ++ rest) = some rest :=
      List.isPrefixOf?_eq_some_iff_append_eq.mpr rfl
    rw [hsome] at hprefix
    cases hprefix
  | some rest =>
    refine ⟨(List.isPrefixOf?_eq_some_iff_append_eq.mp hprefix).symm, matches_literal_iff.mpr rfl,
      fun u _ hmatch => ?_⟩
    rw [matches_literal_iff.mp hmatch]

end Marks

/-- Every class takes the longest text that its pattern matches. -/
theorem split?_takesLongest (lexeme : Lexeme) (cs : List Char) :
    lexeme.pattern.TakesLongest cs (lexeme.split? cs) := by
  cases lexeme with
  | word => exact word_takesLongest cs
  | number => exact number_takesLongest cs
  | blank => exact blank_takesLongest cs
  | text => exact text_takesLongest cs
  | comment => exact comment_takesLongest cs
  | mark kind spelling => exact mark_takesLongest kind spelling cs

section Order

/-- What a text of a class can begin with. -/
def Opens : Lexeme → Char → Prop
  | word, c => startsWord c = true
  | number, c => c.isDigit = true
  | blank, c => Text.isBlank c = true
  | text, c => c = '"'
  | comment, c => c = '/'
  | mark _ spelling, c => spelling.toList.head? = some c

theorem opens_of_matches {lexeme : Lexeme} {c : Char} {u : List Char}
    (h : lexeme.pattern.Matches (c :: u)) : lexeme.Opens c := by
  cases lexeme with
  | word => exact (matches_seq_one_iff.mp h).1
  | number =>
    obtain ⟨whole, ⟨hne, hdigits⟩, hcases⟩ := matches_number_iff.mp h
    cases whole with
    | nil => exact absurd rfl hne
    | cons d whole =>
      have hd : d = c := by
        rcases hcases with heq | ⟨fraction, _, heq⟩
        · exact (List.cons.inj heq).1.symm
        · exact (List.cons.inj heq).1.symm
      exact hd ▸ hdigits d List.mem_cons_self
  | blank => exact (matches_seq_one_iff.mp h).1
  | text =>
    change c = '"'
    exact of_decide_eq_true (matches_seq_one_iff.mp h).1
  | comment =>
    change c = '/'
    exact of_decide_eq_true (matches_seq_one_iff.mp h).1
  | mark kind spelling =>
    have hspelling := matches_literal_iff.mp h
    change spelling.toList.head? = some c
    rw [← hspelling]
    rfl

/-- Whether a spelling begins neither as a word, a number, white space or a text does, and with a
slash only if that is all of it. -/
def opensAsMark : List Char → Bool
  | [] => false
  | c :: rest =>
    !startsWord c && !c.isDigit && !Text.isBlank c && c ≠ '"' && (c ≠ '/' || rest.isEmpty)

theorem marks_open : ∀ entry ∈ TokenKind.marks, ∃ c rest, entry.2.toList = c :: rest ∧
    startsWord c = false ∧ c.isDigit = false ∧ Text.isBlank c = false ∧ c ≠ '"' ∧
      (c = '/' → rest = []) := by
  have hall : ∀ entry ∈ TokenKind.marks, opensAsMark entry.2.toList = true := by decide +kernel
  intro entry hentry
  have h := hall entry hentry
  cases hspelling : entry.2.toList with
  | nil =>
    rw [hspelling] at h
    cases h
  | cons c rest =>
    rw [hspelling] at h
    refine ⟨c, rest, rfl, ?_⟩
    simp only [opensAsMark, Bool.and_eq_true, Bool.not_eq_true', Bool.or_eq_true,
      decide_eq_true_eq, List.isEmpty_iff] at h
    obtain ⟨⟨⟨⟨hword, hdigit⟩, hblank⟩, hquote⟩, hslash⟩ := h
    exact ⟨hword, hdigit, hblank, hquote, fun hc => hslash.resolve_left fun hne => hne hc⟩

/-- No mark begins a mark that stands after it in the table. -/
theorem marks_pairwise :
    TokenKind.marks.Pairwise fun a b => ¬ a.2.toList <+: b.2.toList := by decide +kernel

theorem mem_marks_of_mem_table {kind : TokenKind} {spelling : String}
    (h : mark kind spelling ∈ table) : (kind, spelling) ∈ TokenKind.marks := by
  simpa [table] using h

theorem not_matches_nil {lexeme : Lexeme} (h : lexeme ∈ table) :
    ¬ lexeme.pattern.Matches [] := by
  cases lexeme with
  | word | blank | text | comment => exact not_matches_seq_one_nil
  | number =>
    rw [matches_number_iff]
    rintro ⟨whole, ⟨hne, _⟩, heq | ⟨fraction, _, heq⟩⟩
    · exact hne heq.symm
    · exact absurd heq.symm (by simp)
  | mark kind spelling =>
    obtain ⟨c, rest, hspelling, _⟩ := marks_open _ (mem_marks_of_mem_table h)
    change spelling.toList = c :: rest at hspelling
    intro hmatch
    have hnil := matches_literal_iff.mp hmatch
    rw [hspelling] at hnil
    cases hnil

theorem toNat_of_startsWord {c : Char} (h : startsWord c = true) :
    (65 ≤ c.toNat ∧ c.toNat ≤ 90) ∨ (97 ≤ c.toNat ∧ c.toNat ≤ 122) ∨ c.toNat = 95 := by
  unfold startsWord Char.isAlpha Char.isUpper Char.isLower at h
  simp only [Bool.or_eq_true, Bool.and_eq_true, decide_eq_true_eq, ge_iff_le,
    UInt32.le_iff_toNat_le] at h
  rcases h with (h | h) | rfl
  · exact Or.inl h
  · exact Or.inr (Or.inl h)
  · exact Or.inr (Or.inr rfl)

theorem toNat_of_isDigit {c : Char} (h : c.isDigit = true) : 48 ≤ c.toNat ∧ c.toNat ≤ 57 := by
  simp only [Char.isDigit, Bool.and_eq_true, decide_eq_true_eq, ge_iff_le,
    UInt32.le_iff_toNat_le] at h
  exact h

theorem toNat_of_isBlank {c : Char} (h : Text.isBlank c = true) :
    c.toNat ≤ 32 ∨ 133 ≤ c.toNat := by
  simp only [Text.isBlank, Text.blankRanges, Text.covers, Bool.or_eq_true, Bool.and_eq_true,
    decide_eq_true_eq, Bool.or_false] at h
  omega

/-- A class comes before another for good: where both match at the front of a text, the longest
match of the first is longer than any of the second. -/
def Outranks (a b : Lexeme) : Prop :=
  ∀ u v cs, u <+: cs → v <+: cs → a.pattern.Matches u →
    (∀ w, w <+: cs → a.pattern.Matches w → w.length ≤ u.length) → b.pattern.Matches v →
    v.length < u.length

/-- Classes that begin differently never match at one place. -/
theorem outranks_of_apart {a b : Lexeme} (ha : a ∈ table) (hb : b ∈ table)
    (h : ∀ c, a.Opens c → ¬ b.Opens c) : Outranks a b := by
  intro u v cs hu hv hau _ hbv
  cases u with
  | nil => exact absurd hau (not_matches_nil ha)
  | cons c u =>
    cases v with
    | nil => exact absurd hbv (not_matches_nil hb)
    | cons d v =>
      obtain ⟨rest, rfl⟩ := hu
      obtain ⟨rfl, _⟩ := List.cons_prefix_cons.mp hv
      exact absurd (opens_of_matches hbv) (h _ (opens_of_matches hau))

/-- A comment is longer than the mark that it begins with. -/
theorem comment_outranks {entry : TokenKind × String} (h : entry ∈ TokenKind.marks) :
    Outranks comment (mark entry.1 entry.2) := by
  intro u v cs hu hv hau _ hbv
  obtain ⟨c, rest, hspelling, _, _, _, _, hslash⟩ := marks_open entry h
  obtain ⟨w, rfl, _⟩ := matches_comment_iff.mp hau
  have hv' : v = c :: rest := (matches_literal_iff.mp hbv).trans hspelling
  subst hv'
  obtain ⟨behind, rfl⟩ := hu
  obtain ⟨hc, _⟩ := List.cons_prefix_cons.mp hv
  simp [hslash hc]

theorem mark_outranks {a b : TokenKind × String} (h : ¬ a.2.toList <+: b.2.toList) :
    Outranks (mark a.1 a.2) (mark b.1 b.2) := by
  intro u v cs hu hv hau _ hbv
  have hu' : u = a.2.toList := matches_literal_iff.mp hau
  have hv' : v = b.2.toList := matches_literal_iff.mp hbv
  subst hu' hv'
  by_contra hlength
  exact h (List.prefix_of_prefix_length_le hu hv (by omega))

/-- Among which codes the first characters of a class lie; of marks it says nothing. -/
def OpeningCode : Lexeme → Nat → Prop
  | word, n => (65 ≤ n ∧ n ≤ 90) ∨ (97 ≤ n ∧ n ≤ 122) ∨ n = 95
  | number, n => 48 ≤ n ∧ n ≤ 57
  | blank, n => n ≤ 32 ∨ 133 ≤ n
  | text, n => n = 34
  | comment, n => n = 47
  | mark _ _, _ => True

theorem openingCode_of_opens {lexeme : Lexeme} {c : Char} (h : lexeme.Opens c) :
    lexeme.OpeningCode c.toNat := by
  cases lexeme with
  | word => exact toNat_of_startsWord h
  | number => exact toNat_of_isDigit h
  | blank => exact toNat_of_isBlank h
  | text => exact congrArg Char.toNat h
  | comment => exact congrArg Char.toNat h
  | mark kind spelling => trivial

/-- Words, numbers, white space, texts and comments all begin differently. -/
theorem opens_apart : [word, number, blank, text, comment].Pairwise
    fun a b => ∀ c, a.Opens c → ¬ b.Opens c := by
  have hcodes : [word, number, blank, text, comment].Pairwise
      fun a b => ∀ n, a.OpeningCode n → ¬ b.OpeningCode n := by
    simp only [List.pairwise_cons, List.forall_mem_cons, List.not_mem_nil, false_implies,
      implies_true, and_true, List.Pairwise.nil, OpeningCode]
    refine ⟨⟨?_, ?_, ?_, ?_⟩, ⟨?_, ?_, ?_⟩, ⟨?_, ?_⟩, ?_⟩ <;> intro n ha hb <;> omega
  refine hcodes.imp fun hapart c ha hb => ?_
  exact hapart c.toNat (openingCode_of_opens ha) (openingCode_of_opens hb)

/-- Every class of the table outranks those that stand after it. -/
theorem table_pairwise : table.Pairwise Outranks := by
  have hfirst : ∀ lexeme ∈ [word, number, blank, text, comment], lexeme ∈ table := by
    intro lexeme h
    exact List.mem_append_left _ h
  unfold table
  rw [List.pairwise_append, List.pairwise_map]
  refine ⟨?_, marks_pairwise.imp mark_outranks, fun lexeme h mark' h' => ?_⟩
  · refine List.Pairwise.imp_of_mem (fun ha hb hapart => ?_) opens_apart
    exact outranks_of_apart (hfirst _ ha) (hfirst _ hb) hapart
  · obtain ⟨entry, hentry, rfl⟩ := List.mem_map.mp h'
    obtain ⟨c, rest, hspelling, hword, hnumber, hblank, hquote, _⟩ := marks_open entry hentry
    have hmem : mark entry.1 entry.2 ∈ table := by
      exact List.mem_append_right _ (List.mem_map.mpr ⟨entry, hentry, rfl⟩)
    have hopens : ∀ d, (mark entry.1 entry.2).Opens d → d = c := by
      intro d hd
      change entry.2.toList.head? = some d at hd
      rw [hspelling] at hd
      exact (Option.some.inj hd).symm
    by_cases hcomment : lexeme = comment
    · subst hcomment
      exact comment_outranks hentry
    · refine outranks_of_apart (hfirst lexeme h) hmem fun d hd hmark => ?_
      have hdc := hopens d hmark
      subst hdc
      simp only [List.mem_cons, List.not_mem_nil, or_false] at h
      rcases h with rfl | rfl | rfl | rfl | rfl
      · exact absurd hd (by simp [Opens, hword])
      · exact absurd hd (by simp [Opens, hnumber])
      · exact absurd hd (by simp [Opens, hblank])
      · exact hquote hd
      · exact hcomment rfl

end Order

section First

/-- A text at the front that a class of the table matches, where no class matches a longer one. -/
structure Longest (lexeme : Lexeme) (taken cs : List Char) : Prop where
  mem : lexeme ∈ table
  front : taken <+: cs
  matched : lexeme.pattern.Matches taken
  longest : ∀ other ∈ table, ∀ u, u <+: cs → other.pattern.Matches u → u.length ≤ taken.length

/-- A text at whose front no class of the table matches anything. -/
def Unmatched (cs : List Char) : Prop :=
  ∀ lexeme ∈ table, ∀ u, u <+: cs → ¬ lexeme.pattern.Matches u

theorem unmatched_of_split? {lexeme : Lexeme} {cs : List Char} (h : lexeme.split? cs = none) :
    ∀ u, u <+: cs → ¬ lexeme.pattern.Matches u := by
  have htakes := split?_takesLongest lexeme cs
  rw [h] at htakes
  exact htakes

/-- At one place there is only one longest match, of only one class. -/
theorem Longest.unique {a b : Lexeme} {u v cs : List Char} (ha : a.Longest u cs)
    (hb : b.Longest v cs) : a = b ∧ u = v := by
  have hlength : u.length = v.length :=
    Nat.le_antisymm (hb.longest a ha.mem u ha.front ha.matched)
      (ha.longest b hb.mem v hb.front hb.matched)
  have hsame : u = v := (List.prefix_of_prefix_length_le ha.front hb.front hlength.le).eq_of_length
    hlength
  refine ⟨?_, hsame⟩
  by_contra hne
  have hsymmetric : table.Pairwise fun a b => Outranks a b ∨ Outranks b a :=
    table_pairwise.imp Or.inl
  have : Std.Symm fun a b => Outranks a b ∨ Outranks b a := ⟨fun _ _ h => h.symm⟩
  have hranked : Outranks a b ∨ Outranks b a := hsymmetric.forall ha.mem hb.mem hne
  rcases hranked with h | h
  · have hlt := h u v cs ha.front hb.front ha.matched (ha.longest a ha.mem) hb.matched
    omega
  · have hlt := h v u cs hb.front ha.front hb.matched (hb.longest b hb.mem) ha.matched
    omega

/-- A class that matches something at the front of a text where no class before it in the table
matches anything, with the longest text that it matches. -/
structure FirstMatch (lexeme : Lexeme) (taken cs : List Char) : Prop where
  first : ∃ earlier later, table = earlier ++ lexeme :: later ∧
    ∀ other ∈ earlier, ∀ u, u <+: cs → ¬ other.pattern.Matches u
  front : taken <+: cs
  matched : lexeme.pattern.Matches taken
  longest : ∀ u, u <+: cs → lexeme.pattern.Matches u → u.length ≤ taken.length

theorem firstMatch_of_first? {lexeme : Lexeme} {taken rest cs : List Char}
    (h : first? cs = some (lexeme, taken, rest)) :
    lexeme.FirstMatch taken cs ∧ cs = taken ++ rest := by
  unfold first? at h
  obtain ⟨earlier, found, later, htable, hfound, hnone⟩ := List.findSome?_eq_some_iff.mp h
  obtain ⟨parts, hparts, heq⟩ := Option.map_eq_some_iff.mp hfound
  cases heq
  have htakes := split?_takesLongest lexeme cs
  rw [hparts] at htakes
  obtain ⟨hsplit, hmatched, hlongest⟩ := htakes
  have hearlier : ∀ other ∈ earlier, ∀ u, u <+: cs → ¬ other.pattern.Matches u := by
    intro other hother
    exact unmatched_of_split? (Option.map_eq_none_iff.mp (hnone other hother))
  exact ⟨⟨⟨earlier, later, htable, hearlier⟩, ⟨rest, hsplit.symm⟩, hmatched, hlongest⟩, hsplit⟩

/-- The first class that matches anything matches the longest text that any class matches. -/
theorem FirstMatch.isLongest {lexeme : Lexeme} {taken cs : List Char}
    (h : lexeme.FirstMatch taken cs) : lexeme.Longest taken cs := by
  obtain ⟨⟨earlier, later, htable, hearlier⟩, hfront, hmatched, hlongest⟩ := h
  have hmem : lexeme ∈ table := by
    rw [htable]
    simp
  refine ⟨hmem, hfront, hmatched, fun other hother u hu hmatch => ?_⟩
  have hranked := table_pairwise
  rw [htable, List.pairwise_append, List.pairwise_cons] at hranked
  rw [htable, List.mem_append, List.mem_cons] at hother
  rcases hother with hother | rfl | hother
  · exact absurd hmatch (hearlier other hother u hu)
  · exact hlongest u hu hmatch
  · exact (hranked.2.1.1 other hother taken u cs hfront hu hmatched hlongest hmatch).le

theorem first?_eq_none_iff {cs : List Char} : first? cs = none ↔ Unmatched cs := by
  unfold first? Unmatched
  rw [List.findSome?_eq_none_iff]
  refine forall_congr' fun lexeme => forall_congr' fun _ => ?_
  rw [Option.map_eq_none_iff]
  constructor
  · exact unmatched_of_split?
  · intro h
    have htakes := split?_takesLongest lexeme cs
    cases hsplit : lexeme.split? cs with
    | none => rfl
    | some parts =>
      rw [hsplit] at htakes
      exact absurd htakes.2.1 (h _ ⟨parts.2, htakes.1.symm⟩)

/-- What is taken first is the longest match, and the longest match is taken first. -/
theorem first?_eq_some_iff {lexeme : Lexeme} {taken rest cs : List Char} :
    first? cs = some (lexeme, taken, rest) ↔ lexeme.Longest taken cs ∧ cs = taken ++ rest := by
  constructor
  · intro h
    obtain ⟨hfirst, hsplit⟩ := firstMatch_of_first? h
    exact ⟨hfirst.isLongest, hsplit⟩
  · rintro ⟨hlongest, hsplit⟩
    cases hfirst : first? cs with
    | none =>
      have hnone := first?_eq_none_iff.mp hfirst
      exact absurd hlongest.matched (hnone lexeme hlongest.mem taken hlongest.front)
    | some found =>
      obtain ⟨other, u, behind⟩ := found
      obtain ⟨hother, hcs⟩ := firstMatch_of_first? hfirst
      obtain ⟨rfl, rfl⟩ := hother.isLongest.unique hlongest
      rw [hsplit] at hcs
      rw [List.append_cancel_left hcs]

/-- The longest match is the first match of the table. -/
theorem longest_iff_firstMatch {lexeme : Lexeme} {taken cs : List Char} :
    lexeme.Longest taken cs ↔ lexeme.FirstMatch taken cs := by
  constructor
  · intro h
    obtain ⟨rest, hcs⟩ := h.front
    exact (firstMatch_of_first? (first?_eq_some_iff.mpr ⟨h, hcs.symm⟩)).1
  · exact FirstMatch.isLongest

end First

end Lexeme

end Piecewise
