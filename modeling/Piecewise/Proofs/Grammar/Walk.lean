import Piecewise.Grammar.Walk
import Piecewise.Proofs.Grammar.Stream

/-!
# Walks and parsers in step

From a place among the tokens, a walk and a parser on the stream of the tokens from there on can
march in step: both give the same answer, and the walk ends where the parser leaves the stream.
Every step of walks marches with the same step of token streams, and sequences march when their
parts do. A walk that marches takes every token it passes once, and no end of the source.
-/

namespace Piecewise

namespace ClosedTokens

variable {tokens : ClosedTokens} {place : Nat}

/-- The token in a place; the last one in places behind it. -/
def tokenAt (tokens : ClosedTokens) (place : Nat) : Token := tokens.front.getD place tokens.last

theorem length_all : tokens.all.length = tokens.front.length + 1 := List.length_append

theorem getElem?_all (h : place ≤ tokens.front.length) :
    tokens.all[place]? = some (tokens.tokenAt place) := by
  unfold all tokenAt
  rw [List.getD_eq_getElem?_getD]
  obtain hlt | rfl := Nat.lt_or_eq_of_le h
  · rw [List.getElem?_append_left hlt, List.getElem?_eq_getElem hlt, Option.getD_some]
  · simp

theorem tokenAt_length : tokens.tokenAt tokens.front.length = tokens.last := by
  simp [tokenAt]

theorem drop_front (h : place < tokens.front.length) :
    tokens.front.drop place = tokens.tokenAt place :: tokens.front.drop (place + 1) := by
  rw [List.drop_eq_getElem_cons h, tokenAt, List.getD_eq_getElem?_getD,
    List.getElem?_eq_getElem h, Option.getD_some]

end ClosedTokens

namespace Standing

variable {s : Standing} {m n : Nat}

def token (s : Standing) : Token := s.tokens.tokenAt s.place

def stream (s : Standing) : TokenStream where
  before :=
    match s.place with
    | 0 => .first s.tokens.file
    | place + 1 => (s.tokens.tokenAt place).span.stop
  ahead := s.tokens.front.drop s.place
  endValue := s.tokens.last.value
  endSpan := s.tokens.last.span

/-- Where a walk is when it has taken some of the next tokens. -/
def after (s : Standing) (n : Nat) : Standing :=
  { s with place := s.place + n, taken := s.taken ++ List.range' s.place n }

@[simp] theorem after_zero (s : Standing) : s.after 0 = s := by
  simp [after]

theorem after_after (s : Standing) (m n : Nat) : (s.after m).after n = s.after (m + n) := by
  simp [after, Nat.add_assoc, List.range'_append_1]

/-- A place has a token, and there are at most so many tokens before the last one. -/
structure Within (bound : Nat) (s : Standing) : Prop where
  inside : s.place ≤ s.tokens.front.length
  near : s.tokens.front.length ≤ s.place + bound

namespace Within

theorem of_lt (h : s.place < s.tokens.all.length) : s.Within s.tokens.front.length := by
  rw [ClosedTokens.length_all] at h
  exact ⟨Nat.le_of_lt_succ h, Nat.le_add_left _ _⟩

theorem mono (h : s.Within m) (hle : m ≤ n) : s.Within n :=
  ⟨h.inside, Nat.le_trans h.near (Nat.add_le_add_left hle _)⟩

/-- No token is before the last one where the bound is zero. -/
theorem token_eq_last (h : s.Within 0) : s.token = s.tokens.last := by
  have hplace : s.place = s.tokens.front.length := Nat.le_antisymm h.inside h.near
  rw [token, hplace, ClosedTokens.tokenAt_length]

theorem token_kind (h : s.Within 0) : s.token.kind = .eof := by
  rw [h.token_eq_last]
  exact s.tokens.ended

theorem current_stream (h : s.Within m) : s.stream.current = s.token := by
  unfold TokenStream.current stream
  obtain hlt | heq := Nat.lt_or_eq_of_le h.inside
  · simp only [ClosedTokens.drop_front hlt]
    rfl
  · have hlast : s.Within 0 := ⟨h.inside, Nat.le_of_eq heq.symm⟩
    have hnone : s.tokens.front.drop s.place = [] := List.drop_of_length_le (Nat.le_of_eq heq.symm)
    simp only [hnone, hlast.token_eq_last, TokenStream.endToken, ← s.tokens.ended]

/-- As many tokens are before the last one as the stream has ahead. -/
theorem remaining (h : s.Within m) : s.Within s.stream.ahead.length := by
  have hlength : s.stream.ahead.length = s.tokens.front.length - s.place := List.length_drop
  have hinside := h.inside
  constructor
  · exact hinside
  · omega

/-- A token that is not the end of the source is not the last one. -/
theorem place_lt (h : s.Within m) (hkind : s.token.kind ≠ .eof) :
    s.place < s.tokens.front.length := by
  obtain hlt | heq := Nat.lt_or_eq_of_le h.inside
  · exact hlt
  · have hlast : s.Within 0 := ⟨h.inside, Nat.le_of_eq heq.symm⟩
    exact absurd hlast.token_kind hkind

end Within

/-- A list of tokens is read from its first token on. -/
theorem start_stream (file : String) (tokens : List Token) :
    (⟨.of file tokens, 0, []⟩ : Standing).stream = .ofTokens file tokens := by
  unfold stream ClosedTokens.of TokenStream.ofTokens
  cases tokens.getLast? with
  | none => rfl
  | some last =>
    by_cases h : last.kind = .eof
    · simp only [h, dif_pos, if_pos, List.drop_zero]
    · simp only [h, dif_neg, if_neg, not_false_eq_true, List.drop_zero]

theorem next_stream (h : s.place < s.tokens.front.length) :
    s.stream.next = (s.after 1).stream := by
  unfold TokenStream.next
  have hahead : s.stream.ahead = s.token :: s.tokens.front.drop (s.place + 1) :=
    ClosedTokens.drop_front h
  rw [hahead]
  rfl

end Standing

/-- The result of a parser that answers where it leaves the stream. -/
def TokenStream.settled {α : Type} (stream : TokenStream) :
    Except Diagnostic α → EStateM.Result Diagnostic TokenStream α
  | .ok a => .ok a stream
  | .error d => .error d stream

namespace Walk

variable {α β : Type} {w : Walk α} {p : Parser α} {f : α → Walk β} {g : α → Parser β}
  {s t : Standing} {least bound : Nat}

/-- A walk answers, having taken the given number of tokens, as a parser does on the stream of the
tokens. -/
structure Strides (w : Walk α) (p : Parser α) (s : Standing) (answer : Except Diagnostic α)
    (n : Nat) : Prop where
  answers : w s = some (answer, s.after n)
  parses : p s.stream = (s.after n).stream.settled answer
  /-- The walk still is at a token. -/
  inside : (s.after n).place < s.tokens.all.length
  /-- No token taken is an end of the source. -/
  open_taken : ∀ place, s.place ≤ place → place < s.place + n →
    (s.tokens.tokenAt place).kind ≠ .eof

/-- A walk and a parser march in step, and take at least so many tokens where they succeed. -/
def InStep (least : Nat) (w : Walk α) (p : Parser α) (s : Standing) : Prop :=
  ∃ answer n, w.Strides p s answer n ∧ ∀ a, answer = .ok a → least ≤ n

section Rules

theorem bind_of_ok {a : α} (h : w s = some (.ok a, t)) : (w >>= f) s = f a t := by
  change (w s).bind _ = _
  rw [h]
  rfl

theorem bind_of_error {d : Diagnostic} (h : w s = some (.error d, t)) :
    (w >>= f) s = some (.error d, t) := by
  change (w s).bind _ = _
  rw [h]
  rfl

theorem InStep.congr {w' : Walk α} {p' : Parser α} (h : w.InStep least p s) (hw : w' s = w s)
    (hp : p' s.stream = p s.stream) : w'.InStep least p' s := by
  obtain ⟨answer, n, ⟨hanswers, hparses, hinside, hopen⟩, hleast⟩ := h
  exact ⟨answer, n, ⟨hw.trans hanswers, hp.trans hparses, hinside, hopen⟩, hleast⟩

theorem InStep.loose (h : w.InStep least p s) : w.InStep 0 p s := by
  obtain ⟨answer, n, hstrides, -⟩ := h
  exact ⟨answer, n, hstrides, fun _ _ => Nat.zero_le n⟩

/-- Without a token taken, a walk and a parser that answer alike march. -/
theorem strides_zero (hs : s.Within bound) {answer : Except Diagnostic α}
    (hw : w s = some (answer, s)) (hp : p s.stream = s.stream.settled answer) :
    w.Strides p s answer 0 := by
  refine ⟨by simpa using hw, by simpa using hp, ?_, fun place hge hlt => ?_⟩
  · rw [ClosedTokens.length_all, Standing.after_zero]
    exact Nat.lt_succ_of_le hs.inside
  · omega

theorem inStep_pure (hs : s.Within bound) (a : α) :
    InStep 0 (pure a : Walk α) (pure a) s :=
  ⟨.ok a, 0, strides_zero hs rfl rfl, fun _ _ => Nat.zero_le 0⟩

theorem inStep_throw (hs : s.Within bound) (d : Diagnostic) :
    InStep least (throw d : Walk α) (throw d) s :=
  ⟨.error d, 0, strides_zero hs rfl rfl, fun _ h => nomatch h⟩

theorem Strides.within (hs : s.Within (bound + least)) {n : Nat}
    {answer : Except Diagnostic α} (h : w.Strides p s answer n) (hn : least ≤ n) :
    (s.after n).Within bound := by
  have hinside := h.inside
  have hnear := hs.near
  rw [ClosedTokens.length_all] at hinside
  constructor
  · exact Nat.le_of_lt_succ hinside
  · change s.tokens.front.length ≤ s.place + n + bound
    omega

/-- A sequence takes what its steps take, in order. -/
theorem Strides.bind {m n : Nat} {a : α} {answer : Except Diagnostic β}
    (h : w.Strides p s (.ok a) m) (k : (f a).Strides (g a) (s.after m) answer n) :
    (w >>= f).Strides (p >>= g) s answer (m + n) := by
  refine ⟨?_, ?_, ?_, fun place hge hlt => ?_⟩
  · rw [bind_of_ok h.answers, k.answers, Standing.after_after]
  · rw [Parser.bind_of_ok h.parses, k.parses, Standing.after_after]
  · rw [← Standing.after_after]
    exact k.inside
  · by_cases hfirst : place < s.place + m
    · exact h.open_taken place hge hfirst
    · refine k.open_taken place (Nat.le_of_not_lt hfirst) ?_
      change place < s.place + m + n
      omega

/-- A failure ends a sequence. -/
theorem Strides.bind_error {n : Nat} {d : Diagnostic} (h : w.Strides p s (.error d) n) :
    (w >>= f).Strides (p >>= g) s (.error d) n := by
  refine ⟨bind_of_error h.answers, ?_, h.inside, h.open_taken⟩
  change EStateM.bind p g s.stream = _
  unfold EStateM.bind
  rw [h.parses]
  rfl

/-- A sequence marches when its first step does and the rest does wherever the first step may
end. -/
theorem InStep.bind (h : w.InStep least p s) (hs : s.Within (bound + least))
    (rest : ∀ a t, t.Within bound → (f a).InStep 0 (g a) t) :
    (w >>= f).InStep least (p >>= g) s := by
  obtain ⟨answer, m, hfirst, hleast⟩ := h
  cases answer with
  | error d => exact ⟨.error d, m, hfirst.bind_error, fun _ h => nomatch h⟩
  | ok a =>
    have hm : least ≤ m := hleast a rfl
    obtain ⟨answer, n, hrest, -⟩ := rest a (s.after m) (hfirst.within hs hm)
    exact ⟨answer, m + n, hfirst.bind hrest, fun _ _ => Nat.le_add_right_of_le hm⟩

/-- At the last token, a step that must take a token fails, whatever would follow it. -/
theorem InStep.bind_at_end (h : w.InStep 1 p s) (hs : s.Within 0) :
    (w >>= f).InStep least (p >>= g) s := by
  obtain ⟨answer, m, hfirst, hleast⟩ := h
  cases answer with
  | error d => exact ⟨.error d, m, hfirst.bind_error, fun _ h => nomatch h⟩
  | ok a =>
    have hm : 1 ≤ m := hleast a rfl
    have hinside : s.place + m < s.tokens.all.length := hfirst.inside
    have hnear := hs.near
    rw [ClosedTokens.length_all] at hinside
    omega

end Rules

section Steps

variable {kind : TokenKind}

theorem tokenAt_eq {place : Nat} (h : place ≤ s.tokens.front.length) :
    tokenAt place s = some (.ok (s.tokens.tokenAt place), s) := by
  change (s.tokens.all[place]?.bind fun token => some (token, s)).bind _ = _
  rw [ClosedTokens.getElem?_all h]
  rfl

theorem current_eq (hs : s.Within bound) : current s = some (.ok s.token, s) :=
  tokenAt_eq hs.inside

/-- Sequences that start with the current token march where their rest marches for it. -/
theorem inStep_current_bind {f : Token → Walk β} {g : Token → Parser β} (hs : s.Within bound)
    (h : (f s.token).InStep least (g s.token) s) :
    (current >>= f).InStep least (Parser.current >>= g) s := by
  refine h.congr (bind_of_ok (current_eq hs)) ?_
  rw [← hs.current_stream]
  rfl

/-- A walk that goes by the kind of the current token marches with whatever it marches with for
that kind. -/
theorem inStep_kind_then {f : TokenKind → Walk β} {p : Parser β} (hs : s.Within bound)
    (h : (f s.token.kind).InStep least p s) : (Walk.kind >>= f).InStep least p s := by
  have hkind : Walk.kind s = some (.ok s.token.kind, s) := bind_of_ok (current_eq hs)
  exact h.congr (bind_of_ok hkind) rfl

theorem inStep_kind_bind {f : TokenKind → Walk β} {g : TokenKind → Parser β}
    (hs : s.Within bound) (h : (f s.token.kind).InStep least (g s.token.kind) s) :
    (Walk.kind >>= f).InStep least (Parser.kind >>= g) s := by
  refine (inStep_kind_then hs h).congr rfl ?_
  rw [← hs.current_stream]
  rfl

theorem inStep_position (hs : s.Within bound) : position.InStep 0 Parser.position s :=
  inStep_current_bind (f := fun token => pure token.span.start)
    (g := fun token => pure token.span.start) hs (inStep_pure hs _)

theorem inStep_stopped (hs : s.Within bound) : stopped.InStep 0 Parser.stopped s := by
  refine ⟨.ok s.stream.before, 0, strides_zero hs ?_ rfl, fun _ _ => Nat.zero_le 0⟩
  obtain ⟨tokens, place, taken⟩ := s
  cases place with
  | zero => rfl
  | succ place =>
    let here : Standing := ⟨tokens, place + 1, taken⟩
    have hplace : place ≤ here.tokens.front.length := Nat.le_of_succ_le hs.inside
    have htoken : tokenAt place here = some (.ok (tokens.tokenAt place), here) := tokenAt_eq hplace
    exact bind_of_ok htoken

/-- A form is made once it is known where its last token stops. -/
theorem inStep_stopped_pure {make : Position → α} (hs : s.Within bound) :
    (stopped >>= fun stop => pure (make stop)).InStep 0
      (Parser.stopped >>= fun stop => pure (make stop)) s :=
  (inStep_stopped hs).bind hs fun stop _ ht => inStep_pure ht (make stop)

theorem inStep_advance (hs : s.Within bound) (hkind : s.token.kind ≠ .eof) :
    advance.InStep 1 Parser.advance s := by
  have hplace : s.place < s.tokens.front.length := hs.place_lt hkind
  have hmore : s.place + 1 < s.tokens.all.length := by
    rw [ClosedTokens.length_all]
    exact Nat.succ_lt_succ hplace
  refine ⟨.ok s.token, 1, ⟨?_, ?_, hmore, fun place hge hlt => ?_⟩, fun _ _ => Nat.le_refl 1⟩
  · change tokenAt s.place { s with
      place := if s.place + 1 < s.tokens.all.length then s.place + 1 else s.place
      taken := s.taken ++ [s.place] } = _
    rw [if_pos hmore]
    exact tokenAt_eq hs.inside
  · change EStateM.Result.ok s.stream.current s.stream.next = _
    rw [hs.current_stream, Standing.next_stream hplace]
    rfl
  · obtain rfl : place = s.place := by omega
    exact hkind

/-- A demand for a token that is no end of the source takes one where it succeeds. -/
theorem inStep_expectOr {failure : Token → Diagnostic} (hs : s.Within bound)
    (hkind : kind ≠ .eof) :
    (expectOr kind failure).InStep 1 (Parser.expectOr kind failure) s := by
  refine inStep_current_bind hs ?_
  by_cases htoken : s.token.kind = kind
  · rw [if_pos htoken, if_pos htoken]
    exact inStep_advance hs (htoken ▸ hkind)
  · rw [if_neg htoken, if_neg htoken]
    exact inStep_throw hs _

theorem inStep_expect (hs : s.Within bound) (hkind : kind ≠ .eof) :
    (expect kind).InStep 1 (Parser.expect kind) s :=
  inStep_expectOr hs hkind

theorem inStep_eat (hs : s.Within bound) (hkind : kind ≠ .eof) :
    (eat kind).InStep 0 (Parser.eat kind) s := by
  refine inStep_current_bind hs ?_
  by_cases htoken : s.token.kind = kind
  · rw [if_pos htoken, if_pos htoken]
    have hadvance := inStep_advance hs (htoken ▸ hkind)
    exact hadvance.loose.bind hs fun _ t ht => inStep_pure ht true
  · rw [if_neg htoken, if_neg htoken]
    exact inStep_pure hs false

/-- A parser may ask how many tokens are ahead. -/
theorem inStep_remaining {p : Nat → Parser α} (hs : s.Within bound)
    (h : ∀ n, s.Within n → w.InStep least (p n) s) :
    w.InStep least (Parser.remaining >>= p) s :=
  (h s.stream.ahead.length hs.remaining).congr rfl rfl

theorem inStep_unexpected (hs : s.Within bound) :
    (unexpected : Walk α).InStep least Parser.unexpected s :=
  inStep_current_bind hs (inStep_throw hs _)

theorem inStep_unexpectedBecause (hs : s.Within bound) {message : String} :
    (unexpectedBecause message : Walk α).InStep least (Parser.unexpectedBecause message) s :=
  inStep_current_bind hs (inStep_throw hs _)

end Steps

end Walk

end Piecewise
