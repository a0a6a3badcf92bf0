import Piecewise.Proofs.Token.Joined

/-!
# Text literals read back

What stands between the quotes of a literal is a row of items: a backslash with the character after
it, or a character of its own. A literal can be taken for such a row in one way only, however many
backslashes and quotes follow one another, and the text that it stands for is told item by item. So
every text can be written as a literal and is read back from it.
-/

namespace Piecewise

namespace Pattern

variable {item : Pattern} {u : List Char}

/-- A repeated pattern matches the texts that are put together from matches of the pattern. -/
theorem matches_many_iff_flatten : Matches (.many item) u ↔
    ∃ items : List (List Char), (∀ i ∈ items, item.Matches i) ∧ u = items.flatten := by
  constructor
  · intro h
    generalize hmany : Pattern.many item = p at h
    induction h with
    | none => exact ⟨[], by simp, rfl⟩
    | more h k _ ih =>
      cases hmany
      obtain ⟨items, hitems, rfl⟩ := ih rfl
      exact ⟨_ :: items, List.forall_mem_cons.mpr ⟨h, hitems⟩, rfl⟩
    | empty | one | seq | left | right => cases hmany
  · rintro ⟨items, hitems, rfl⟩
    induction items with
    | nil => exact .none
    | cons i items ih =>
      obtain ⟨hi, hrest⟩ := List.forall_mem_cons.mp hitems
      exact .more hi (ih hrest)

end Pattern

namespace Lexeme

open Pattern

/-- What an item of a literal stands for: four pairs with a backslash stand for one character each,
and every other item stands for itself. -/
def meaning : List Char → List Char
  | ['\\', 'n'] => ['\n']
  | ['\\', 't'] => ['\t']
  | ['\\', '\\'] => ['\\']
  | ['\\', '"'] => ['"']
  | item => item

/-- A literal as the pattern of literals takes it: items between two quotes. -/
structure Itemized (literal : List Char) (items : List (List Char)) : Prop where
  item : ∀ item ∈ items, textItem.Matches item
  written : literal = '"' :: (items.flatten ++ ['"'])

section Items

variable {literal u v item item' : List Char} {items items' : List (List Char)} {c : Char}

theorem matches_text_iff : text.pattern.Matches literal ↔ ∃ items, Itemized literal items := by
  have hbody : ∀ u, Matches (.seq (.many textItem) (.one (· = '"'))) u ↔
      ∃ items : List (List Char), (∀ i ∈ items, textItem.Matches i) ∧
        u = items.flatten ++ ['"'] := by
    intro u
    rw [matches_seq_iff]
    constructor
    · rintro ⟨inside, last, hinside, hlast, rfl⟩
      obtain ⟨items, hitems, rfl⟩ := matches_many_iff_flatten.mp hinside
      obtain ⟨c, hc, rfl⟩ := matches_one_iff.mp hlast
      exact ⟨items, hitems, by simpa using hc⟩
    · rintro ⟨items, hitems, rfl⟩
      exact ⟨_, _, matches_many_iff_flatten.mpr ⟨items, hitems, rfl⟩, .one rfl, rfl⟩
  unfold pattern
  cases literal with
  | nil =>
    refine iff_of_false not_matches_seq_one_nil ?_
    rintro ⟨items, _, hwritten⟩
    cases hwritten
  | cons c rest =>
    rw [matches_seq_one_iff, hbody]
    constructor
    · rintro ⟨hc, items, hitems, rfl⟩
      exact ⟨items, hitems, by simpa using hc⟩
    · rintro ⟨items, hitems, hwritten⟩
      cases hwritten
      exact ⟨rfl, items, hitems, rfl⟩

/-- Items can be told apart: no text begins with two of them. -/
theorem item_unique (h : textItem.Matches item) (h' : textItem.Matches item')
    (heq : item ++ u = item' ++ v) : item = item' ∧ u = v := by
  rcases matches_textItem_iff.mp h with ⟨c, _, rfl⟩ | ⟨c, hc, rfl⟩ <;>
    rcases matches_textItem_iff.mp h' with ⟨d, _, rfl⟩ | ⟨d, hd, rfl⟩
  · cases heq
    exact ⟨rfl, rfl⟩
  · cases heq
    exact absurd rfl hd.2
  · cases heq
    exact absurd rfl hc.2
  · cases heq
    exact ⟨rfl, rfl⟩

theorem item_ne_nil (h : textItem.Matches item) : item ≠ [] := by
  rcases matches_textItem_iff.mp h with ⟨c, _, rfl⟩ | ⟨c, _, rfl⟩ <;> simp

theorem items_unique (h : ∀ i ∈ items, textItem.Matches i) (h' : ∀ i ∈ items', textItem.Matches i)
    (heq : items.flatten = items'.flatten) : items = items' := by
  induction items generalizing items' with
  | nil =>
    cases items' with
    | nil => rfl
    | cons i rest =>
      have hi := item_ne_nil (List.forall_mem_cons.mp h').1
      simp [hi] at heq
  | cons i items ih =>
    cases items' with
    | nil =>
      have hi := item_ne_nil (List.forall_mem_cons.mp h).1
      simp [hi] at heq
    | cons i' items' =>
      obtain ⟨hi, hitems⟩ := List.forall_mem_cons.mp h
      obtain ⟨hi', hitems'⟩ := List.forall_mem_cons.mp h'
      obtain ⟨rfl, hrest⟩ := item_unique hi hi' heq
      rw [ih hitems hitems' hrest]

/-- A literal is itemized in one way only. -/
theorem Itemized.unique (h : Itemized literal items) (h' : Itemized literal items') :
    items' = items := by
  have heq := h'.written.symm.trans h.written
  have hflatten : items'.flatten = items.flatten :=
    List.append_cancel_right (List.cons.inj heq).2
  exact items_unique h'.item h.item hflatten

end Items

section Decode

variable {c d : Char} {rest : List Char}

theorem decode_cons (hc : c ≠ '\\') : decode (c :: rest) = c :: decode rest := by
  rw [decode.eq_3]
  rintro _ _ rfl
  exact absurd rfl hc

theorem decode_pair (h : unescape? c = some d) : decode ('\\' :: c :: rest) = d :: decode rest := by
  rw [decode, h]

/-- A pair that stands for nothing is kept. The character after the backslash is read on its own,
and it is no backslash, since two backslashes stand for one. -/
theorem decode_pair_kept (h : unescape? c = none) :
    decode ('\\' :: c :: rest) = '\\' :: c :: decode rest := by
  have hc : c ≠ '\\' := by
    rintro rfl
    cases h
  rw [decode, h, decode_cons hc]

theorem meaning_pair (c : Char) :
    meaning ['\\', c] = (unescape? c).elim ['\\', c] fun d => [d] := by
  unfold unescape?
  split
  case h_5 hn ht hback hquote =>
    unfold meaning
    split <;> simp_all
  all_goals rfl

theorem meaning_singleton (c : Char) : meaning [c] = [c] := by
  unfold meaning
  split <;> simp_all

/-- The inside of a literal is read item by item. -/
theorem decode_flatten {items : List (List Char)} (h : ∀ item ∈ items, textItem.Matches item) :
    decode items.flatten = items.flatMap meaning := by
  induction items with
  | nil => rfl
  | cons item items ih =>
    obtain ⟨hitem, hitems⟩ := List.forall_mem_cons.mp h
    rw [List.flatten_cons, List.flatMap_cons, ← ih hitems]
    rcases matches_textItem_iff.mp hitem with ⟨c, _, rfl⟩ | ⟨c, hc, rfl⟩
    · rw [meaning_pair]
      cases hunescape : unescape? c with
      | some d => exact decode_pair hunescape
      | none => exact decode_pair_kept hunescape
    · rw [meaning_singleton]
      exact decode_cons hc.2

end Decode

section Read

variable {taken rest : List Char}

/-- A literal is taken up to its closing quote, whatever follows it: what begins with a quote is a
text, and no text goes on behind the end of another. -/
theorem longest_text (h : text.pattern.Matches taken) : text.Longest taken (taken ++ rest) := by
  refine ⟨by decide, List.prefix_append taken rest, h, fun other hother u hu hmatch => ?_⟩
  by_contra hlonger
  obtain ⟨w, rfl⟩ := List.prefix_of_prefix_length_le (List.prefix_append taken rest) hu (by omega)
  obtain ⟨items, _, rfl⟩ := matches_text_iff.mp h
  have htext : other = text := eq_text_of_opens hother (opens_of_matches hmatch)
  rw [htext] at hmatch
  rw [text_prefix_free h hmatch] at hlonger
  simp at hlonger

/-- The value of a literal is told item by item. -/
theorem token?_of_itemized {items : List (List Char)} (h : Itemized taken items) :
    text.token? taken = some (.text, String.ofList (items.flatMap meaning)) := by
  rw [h.written, ← decode_flatten h.item]
  simp [token?]

end Read

section Write

/-- A character as it is written in a literal. -/
def escaped : Char → List Char
  | '\\' => ['\\', '\\']
  | '"' => ['\\', '"']
  | '\n' => ['\\', 'n']
  | '\t' => ['\\', 't']
  | c => [c]

def literal (s : String) : List Char := '"' :: (s.toList.flatMap escaped ++ ['"'])

theorem escaped_cases (c : Char) :
    (∃ d, unescape? d = some c ∧ escaped c = ['\\', d]) ∨
      (c ≠ '"' ∧ c ≠ '\\') ∧ escaped c = [c] := by
  unfold escaped
  split
  case h_1 => exact Or.inl ⟨'\\', rfl, rfl⟩
  case h_2 => exact Or.inl ⟨'"', rfl, rfl⟩
  case h_3 => exact Or.inl ⟨'n', rfl, rfl⟩
  case h_4 => exact Or.inl ⟨'t', rfl, rfl⟩
  case h_5 hback hquote _ _ => exact Or.inr ⟨⟨hquote, hback⟩, rfl⟩

/-- A character as it is written is an item, and stands for the character. -/
theorem escaped_item (c : Char) :
    textItem.Matches (escaped c) ∧ meaning (escaped c) = [c] := by
  rcases escaped_cases c with ⟨d, hd, heq⟩ | ⟨hc, heq⟩
  · rw [heq, meaning_pair, hd]
    refine ⟨matches_textItem_iff.mpr (Or.inl ⟨d, ?_, rfl⟩), rfl⟩
    rintro rfl
    cases hd
  · rw [heq, meaning_singleton]
    exact ⟨matches_textItem_iff.mpr (Or.inr ⟨c, hc, rfl⟩), rfl⟩

theorem itemized_literal (s : String) : Itemized (literal s) (s.toList.map escaped) := by
  refine ⟨?_, by rw [literal, List.flatMap_def]⟩
  intro item hitem
  obtain ⟨c, _, rfl⟩ := List.mem_map.mp hitem
  exact (escaped_item c).1

theorem flatMap_meaning_escaped (cs : List Char) : (cs.map escaped).flatMap meaning = cs := by
  induction cs with
  | nil => rfl
  | cons c cs ih => rw [List.map_cons, List.flatMap_cons, ih, (escaped_item c).2]; rfl

end Write

end Lexeme

/-- The tokens of a literal are one text and the end. -/
theorem tokens_of_literal (file : String) (s : String) : ∃ span place,
    (Source.mk file (String.ofList (Lexeme.literal s))).tokens =
      .ok [⟨.text, s, span⟩, .eofAt place] := by
  have hitems := Lexeme.itemized_literal s
  have htoken := Lexeme.token?_of_itemized hitems
  rw [Lexeme.flatMap_meaning_escaped, String.ofList_toList] at htoken
  have hlongest : Lexeme.text.Longest (Lexeme.literal s) (Lexeme.literal s ++ []) :=
    Lexeme.longest_text (Lexeme.matches_text_iff.mpr ⟨_, hitems⟩)
  have hcut : Segmentation (Source.mk file (String.ofList (Lexeme.literal s))).text.toList
      [⟨.text, Lexeme.literal s⟩] [] := by
    have hwhole := Segmentation.cut hlongest hlongest.nonempty .stop
    rw [List.append_nil] at hwhole
    rwa [String.toList_ofList]
  rw [tokens_of_segmentation hcut]
  simp only [Segment.tokens, Segment.token?, htoken]
  exact ⟨_, _, rfl⟩

/-- A text that is written as a literal, with a backslash pair for each backslash, quote, newline
and tab, makes one token, whose value is the text, and then the end. More generally, every text
that the pattern of literals matches is put together from items in one way only, and is taken as it
is whatever follows it; its value has for every item what the item stands for. -/
theorem literals_read_back :
    (∀ (file : String) (s : String), ∃ span place,
      (Source.mk file (String.ofList (Lexeme.literal s))).tokens =
        .ok [⟨.text, s, span⟩, .eofAt place]) ∧
    ∀ taken, Lexeme.text.pattern.Matches taken →
      ∃ items, Lexeme.Itemized taken items ∧
        (∀ items', Lexeme.Itemized taken items' → items' = items) ∧
        Lexeme.text.token? taken =
          some (.text, String.ofList (items.flatMap Lexeme.meaning)) ∧
        ∀ rest, Lexeme.first? (taken ++ rest) = some (.text, taken, rest) := by
  refine ⟨tokens_of_literal, fun taken hmatch => ?_⟩
  obtain ⟨items, hitems⟩ := Lexeme.matches_text_iff.mp hmatch
  refine ⟨items, hitems, fun items' hitems' => hitems.unique hitems',
    Lexeme.token?_of_itemized hitems, fun rest => ?_⟩
  exact Lexeme.first?_eq_some_iff.mpr ⟨Lexeme.longest_text hmatch, rfl⟩

/-- Six backslashes with a quote among them, and two letters of which no backslash stands with the
first for anything. -/
def backslashes : List (List Char) := [['\\', '\\'], ['\\', '"'], ['\\', '\\'], ['\\', 'q'], ['n']]

/-- Between quotes these items are a literal, for two backslashes, a quote, and the pair that stands
for nothing. -/
theorem literals_read_back_backslashes :
    Lexeme.text.pattern.Matches ('"' :: (backslashes.flatten ++ ['"'])) ∧
      Lexeme.text.token? ('"' :: (backslashes.flatten ++ ['"'])) =
        some (.text, "\\\"\\\\qn") := by
  have hitem : ∀ item ∈ backslashes, Lexeme.textItem.Matches item := by
    simp [backslashes, Lexeme.matches_textItem_iff]
  have hitems : Lexeme.Itemized ('"' :: (backslashes.flatten ++ ['"'])) backslashes :=
    ⟨hitem, rfl⟩
  have hmatch := Lexeme.matches_text_iff.mpr ⟨_, hitems⟩
  obtain ⟨items, _, hunique, hvalue, _⟩ := literals_read_back.2 _ hmatch
  refine ⟨hmatch, ?_⟩
  rw [hvalue, ← hunique _ hitems]
  rfl

end Piecewise
