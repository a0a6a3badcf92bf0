import Piecewise.Grammar.Stream

/-!
# What parsing steps read

A parsing step that succeeds passes some of the tokens ahead and leaves the rest. Every step of
token streams succeeds under one condition, passing tokens that are known; a sequence of steps
passes what its steps pass, in order.
-/

namespace Piecewise

def Token.plain (kind : TokenKind) (value : String) : Token := ⟨kind, value, default⟩

namespace TokenStream

/-- The kind of token in front of a text; the end of the source where there is no text. -/
def front : List Token → TokenKind
  | [] => .eof
  | token :: _ => token.kind

theorem kind_current (s : TokenStream) : s.current.kind = front s.ahead := by
  unfold current front
  cases s.ahead with
  | nil => rfl
  | cons token rest => rfl

theorem front_append {text behind : List Token} (h : text ≠ []) :
    front (text ++ behind) = front text := by
  cases text with
  | nil => exact absurd rfl h
  | cons token rest => rfl

/-- One stream becomes another when the tokens of a text are read. -/
structure Passes (s : TokenStream) (text : List Token) (t : TokenStream) : Prop where
  ahead : s.ahead = text ++ t.ahead
  ending : t.endToken = s.endToken

namespace Passes

variable {s t u : TokenStream} {text behind : List Token}

theorem refl (s : TokenStream) : s.Passes [] s := ⟨rfl, rfl⟩

theorem trans (h : s.Passes text t) (k : t.Passes behind u) : s.Passes (text ++ behind) u := by
  refine ⟨?_, k.ending.trans h.ending⟩
  rw [h.ahead, k.ahead, List.append_assoc]

theorem length (h : s.Passes text t) : s.ahead.length = text.length + t.ahead.length := by
  rw [h.ahead, List.length_append]

/-- Reading leaves no more tokens ahead than there were. -/
theorem length_le {n : Nat} (h : s.Passes text t) (hn : s.ahead.length ≤ n) :
    t.ahead.length ≤ n := by
  have hlength := h.length
  omega

/-- Reading some token leaves fewer tokens ahead. -/
theorem length_le_pred {n : Nat} (h : s.Passes text t) (hpos : 0 < text.length)
    (hn : s.ahead.length ≤ n + 1) : t.ahead.length ≤ n := by
  have hlength := h.length
  omega

/-- What lies behind the text is ahead once the text is read. -/
theorem rest (h : s.Passes text t) {rest : List Token} (hs : s.ahead = text ++ rest) :
    t.ahead = rest := by
  rw [h.ahead] at hs
  exact List.append_cancel_left hs

end Passes

/-- The next token is passed, unless the source ends. -/
theorem passes_next {s : TokenStream} (h : s.current.kind ≠ .eof) :
    s.Passes [s.current] s.next := by
  unfold current next at *
  cases hahead : s.ahead with
  | nil =>
    rw [hahead] at h
    exact absurd rfl h
  | cons token rest => exact ⟨hahead, rfl⟩

theorem current_of_ahead {s : TokenStream} {token : Token} {rest : List Token}
    (h : s.ahead = token :: rest) : s.current = token := by
  unfold current
  rw [h]

end TokenStream

namespace Parser

variable {α β : Type} {s t u : TokenStream} {token : Token} {kind : TokenKind}

/-- A sequence succeeds when its first step does and the next one does after it. -/
theorem bind_eq_ok_iff {p : Parser α} {f : α → Parser β} {b : β} :
    (p >>= f) s = .ok b u ↔ ∃ a t, p s = .ok a t ∧ f a t = .ok b u := by
  change EStateM.bind p f s = .ok b u ↔ _
  unfold EStateM.bind
  cases hp : p s with
  | ok a t =>
    constructor
    · intro h
      exact ⟨a, t, rfl, h⟩
    · rintro ⟨a, t, h, k⟩
      cases h
      exact k
  | error d t =>
    constructor
    · intro h
      cases h
    · rintro ⟨a, t, h, k⟩
      cases h

theorem bind_of_ok {p : Parser α} {f : α → Parser β} {a : α} (h : p s = .ok a t) :
    (p >>= f) s = f a t := by
  change EStateM.bind p f s = _
  unfold EStateM.bind
  rw [h]

theorem kind_bind {f : TokenKind → Parser α} : (Parser.kind >>= f) s = f s.current.kind s := rfl

theorem pure_eq_ok_iff {a b : α} : (pure a : Parser α) s = .ok b t ↔ b = a ∧ t = s := by
  constructor
  · intro h
    cases h
    exact ⟨rfl, rfl⟩
  · rintro ⟨rfl, rfl⟩
    rfl

theorem bind_pure_eq_ok_iff {p : Parser α} {f : α → β} {b : β} :
    (p >>= fun a => pure (f a)) s = .ok b t ↔ ∃ a, p s = .ok a t ∧ b = f a := by
  rw [bind_eq_ok_iff]
  constructor
  · rintro ⟨a, u, hp, h⟩
    obtain ⟨rfl, rfl⟩ := pure_eq_ok_iff.mp h
    exact ⟨a, hp, rfl⟩
  · rintro ⟨a, hp, rfl⟩
    exact ⟨a, t, hp, rfl⟩

/-- A token of the kind asked for is taken. -/
theorem expectOr_of_kind {failure : Token → Diagnostic} (h : s.current.kind = kind) :
    expectOr kind failure s = .ok s.current s.next := by
  change (if s.current.kind = kind then advance else throw (failure s.current)) s = _
  rw [if_pos h]
  rfl

theorem expectOr_eq_ok_iff {failure : Token → Diagnostic} :
    expectOr kind failure s = .ok token t ↔
      s.current.kind = kind ∧ token = s.current ∧ t = s.next := by
  constructor
  · intro h
    change (if s.current.kind = kind then advance else throw (failure s.current)) s = _ at h
    split at h
    · cases h
      exact ⟨by assumption, rfl, rfl⟩
    · cases h
  · rintro ⟨h, rfl, rfl⟩
    exact expectOr_of_kind h

/-- What a successful demand for a token passes, where the end of the source is not demanded. -/
theorem passes_of_expectOr {failure : Token → Diagnostic}
    (h : expectOr kind failure s = .ok token t) (hkind : kind ≠ .eof) :
    token.kind = kind ∧ s.Passes [token] t := by
  obtain ⟨hcurrent, rfl, rfl⟩ := expectOr_eq_ok_iff.mp h
  exact ⟨hcurrent, TokenStream.passes_next (hcurrent ▸ hkind)⟩

theorem passes_of_expect (h : expect kind s = .ok token t) (hkind : kind ≠ .eof) :
    token.kind = kind ∧ s.Passes [token] t :=
  passes_of_expectOr h hkind

/-- The first token of a text is taken. -/
theorem advance_of_ahead {rest : List Token} (h : s.ahead = token :: rest) :
    ∃ t, advance s = .ok token t ∧ s.Passes [token] t ∧ t.ahead = rest := by
  have hcurrent : s.current = token := TokenStream.current_of_ahead h
  refine ⟨s.next, ?_, ⟨?_, ?_⟩, ?_⟩
  · rw [← hcurrent]
    rfl
  all_goals simp [TokenStream.next, h, TokenStream.endToken]

/-- A text that starts with a token of the kind asked for is read up to behind the token. -/
theorem expect_of_ahead {rest : List Token} (h : s.ahead = token :: rest)
    (hkind : token.kind = kind) :
    ∃ t, expect kind s = .ok token t ∧ s.Passes [token] t ∧ t.ahead = rest := by
  obtain ⟨t, hadvance, hpasses, hrest⟩ := advance_of_ahead h
  have hcurrent : s.current = token := TokenStream.current_of_ahead h
  refine ⟨t, ?_, hpasses, hrest⟩
  rw [← hadvance]
  exact expectOr_of_kind (hcurrent ▸ hkind)

/-- A token that may be left out is passed if it is there. -/
theorem eat_eq_ok_iff {b : Bool} : eat kind s = .ok b t ↔
    (s.current.kind = kind ∧ b = true ∧ t = s.next) ∨
      (s.current.kind ≠ kind ∧ b = false ∧ t = s) := by
  have hrun : eat kind s =
      if s.current.kind = kind then .ok true s.next else .ok false s := by
    change (if s.current.kind = kind then (advance >>= fun _ => pure true) else pure false) s = _
    split
    · rfl
    · rfl
  rw [hrun]
  constructor
  · intro h
    split at h
    · cases h
      exact Or.inl ⟨by assumption, rfl, rfl⟩
    · cases h
      exact Or.inr ⟨by assumption, rfl, rfl⟩
  · rintro (⟨h, rfl, rfl⟩ | ⟨h, rfl, rfl⟩)
    · rw [if_pos h]
    · rw [if_neg h]

end Parser

end Piecewise
