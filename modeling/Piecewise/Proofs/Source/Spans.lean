import Piecewise.Proofs.Source.Order

/-!
# Spans inside spans

Spans stand between two places when each starts no earlier than the one before it stops. Such spans
lie within every span that reaches from the first of the places to the second, and apart from each
other.
-/

namespace Piecewise.Span

/-- A span that is in order, with its parts inside it and apart from each other. -/
structure Nests (span : Span) (parts : List Span) : Prop where
  ordered : span.start ≤ span.stop
  within : ∀ part ∈ parts, span.start ≤ part.start ∧ part.stop ≤ span.stop
  apart : parts.Pairwise fun a b => a.stop ≤ b.start

/-- Spans in order that stand one behind the other, no earlier than a first place and no later than
a second one. -/
def Between (lo : Position) : List Span → Position → Prop
  | [], hi => lo ≤ hi
  | span :: rest, hi => lo ≤ span.start ∧ span.start ≤ span.stop ∧ Between span.stop rest hi

section Between

variable {lo lo' mid hi hi' : Position} {spans more : List Span} {span : Span}

theorem Between.le (h : Between lo spans hi) : lo ≤ hi := by
  induction spans generalizing lo with
  | nil => exact h
  | cons span rest ih => exact le_trans h.1 (le_trans h.2.1 (ih h.2.2))

theorem Between.mono (h : Between lo spans hi) (hlo : lo' ≤ lo) (hhi : hi ≤ hi') :
    Between lo' spans hi' := by
  induction spans generalizing lo lo' with
  | nil => exact le_trans hlo (le_trans h hhi)
  | cons span rest ih => exact ⟨le_trans hlo h.1, h.2.1, ih h.2.2 (le_refl _)⟩

theorem Between.append (h : Between lo spans mid) (k : Between mid more hi) :
    Between lo (spans ++ more) hi := by
  induction spans generalizing lo with
  | nil => exact k.mono h (le_refl _)
  | cons span rest ih => exact ⟨h.1, h.2.1, ih h.2.2⟩

theorem Between.within (h : Between lo spans hi) (hspan : span ∈ spans) :
    lo ≤ span.start ∧ span.stop ≤ hi := by
  induction spans generalizing lo with
  | nil => exact absurd hspan List.not_mem_nil
  | cons first rest ih =>
    obtain ⟨hstart, hordered, hrest⟩ := h
    rcases List.mem_cons.mp hspan with rfl | hlater
    · exact ⟨hstart, hrest.le⟩
    · obtain ⟨hbehind, hstop⟩ := ih hrest hlater
      exact ⟨le_trans hstart (le_trans hordered hbehind), hstop⟩

theorem Between.apart (h : Between lo spans hi) : spans.Pairwise fun a b => a.stop ≤ b.start := by
  induction spans generalizing lo with
  | nil => exact .nil
  | cons first rest ih =>
    exact List.pairwise_cons.mpr ⟨fun b hb => (h.2.2.within hb).1, ih h.2.2⟩

/-- Spans between the ends of a span nest in it. -/
theorem Between.nests (h : Between span.start spans span.stop) : span.Nests spans :=
  ⟨h.le, fun _ hpart => h.within hpart, h.apart⟩

end Between

end Piecewise.Span
