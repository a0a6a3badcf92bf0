import Piecewise.Proofs.Grammar.Stream

/-!
# Items with commas between them

Reading items with commas between them reads texts of the items with commas between the texts, and
reads all of such texts. Both are stated for any way to read one item.
-/

namespace Piecewise

open Piecewise.TokenStream

/-- The texts of items with commas between them, where a comma may stand behind the last item. -/
inductive Listed {α : Type} (text : α → List Token) : List α → List Token → Prop
  | none : Listed text [] []
  | one {a : α} : Listed text [a] (text a)
  | more {a : α} {as : List α} {comma : Token} {behind : List Token}
      (h : comma.kind = .comma) (k : Listed text as behind) :
      Listed text (a :: as) (text a ++ comma :: behind)

namespace Parser

variable {α β : Type} {item : Parser β} {close : TokenKind} {text : α → List Token} {bound : Nat}

section Steps

variable {n : Nat} {s : TokenStream}

theorem separated_of_close (h : s.current.kind = close) : separated item close n s = .ok [] s := by
  cases n with
  | zero => rw [separated, kind_bind, if_pos h]; rfl
  | succ n => rw [separated, kind_bind, if_pos h]; rfl

theorem separated_zero (h : s.current.kind ≠ close) :
    separated item close 0 s = (do return [← item]) s := by
  rw [separated, kind_bind, if_neg h]

/-- An item is read, and further ones if a comma follows. -/
theorem separated_succ (h : s.current.kind ≠ close) : separated item close (n + 1) s =
    (do
      let first ← item
      if ← eat .comma then return first :: (← separated item close n)
      else return [first]) s := by
  rw [separated, kind_bind, if_neg h]

end Steps

/-- Where every item reads its text, items read their texts with commas between them, up to the
closing token. -/
theorem separated_of_listed {γ : Type} {view : β → γ} {want : α → γ} {as : List α}
    {inside : List Token} (hclose : close ≠ .comma) (hlisted : Listed text as inside)
    (hfront : ∀ a ∈ as, text a ≠ [] ∧ front (text a) ≠ close)
    (hitem : ∀ a ∈ as, ∀ s rest, s.ahead = text a ++ rest → s.ahead.length ≤ bound →
      front rest = .comma ∨ front rest = close →
      ∃ b t, item s = .ok b t ∧ view b = want a ∧ s.Passes (text a) t)
    {n : Nat} {s : TokenStream} {last : Token} {rest : List Token}
    (hs : s.ahead = inside ++ last :: rest) (hlast : last.kind = close)
    (hn : s.ahead.length ≤ n) (hbound : s.ahead.length ≤ bound) :
    ∃ bs t, separated item close n s = .ok bs t ∧ bs.map view = as.map want ∧
      s.Passes inside t := by
  induction hlisted generalizing n s with
  | none =>
    have hkind : s.current.kind = close := by
      rw [kind_current, hs]
      exact hlast
    exact ⟨[], s, separated_of_close hkind, rfl, .refl s⟩
  | @one a =>
    obtain ⟨hne, hopen⟩ := hfront a List.mem_cons_self
    have hkind : s.current.kind ≠ close := by
      rw [kind_current, hs, front_append hne]
      exact hopen
    obtain ⟨b, t, hread, hview, hpasses⟩ :=
      hitem a List.mem_cons_self s (last :: rest) hs hbound (Or.inr hlast)
    have hstop : t.current.kind ≠ .comma := by
      rw [kind_current, hpasses.rest hs]
      change last.kind ≠ .comma
      rw [hlast]
      exact hclose
    have heat : eat .comma t = .ok false t := eat_eq_ok_iff.mpr (Or.inr ⟨hstop, rfl, rfl⟩)
    refine ⟨[b], t, ?_, by rw [List.map_singleton, List.map_singleton, hview], hpasses⟩
    cases n with
    | zero => simp [hs] at hn
    | succ n =>
      rw [separated_succ hkind, bind_of_ok hread, bind_of_ok heat]
      rfl
  | @more a as comma behind hcomma k ih =>
    obtain ⟨hne, hopen⟩ := hfront a List.mem_cons_self
    have hkind : s.current.kind ≠ close := by
      rw [kind_current, hs, List.append_assoc, front_append hne]
      exact hopen
    rw [List.append_assoc, List.cons_append] at hs
    obtain ⟨b, t, hread, hview, hpasses⟩ :=
      hitem a List.mem_cons_self s _ hs hbound (Or.inl hcomma)
    have ht : t.ahead = comma :: (behind ++ last :: rest) := hpasses.rest hs
    obtain ⟨u, hadvance, hcommaPasses, hu⟩ := advance_of_ahead ht
    have heat : eat .comma t = .ok true u := by
      have hcurrent : t.current.kind = .comma := by
        rw [current_of_ahead ht]
        exact hcomma
      cases hadvance
      exact eat_eq_ok_iff.mpr (Or.inl ⟨hcurrent, rfl, rfl⟩)
    cases n with
    | zero => simp [hs] at hn
    | succ n =>
      have hfirst := hpasses.length
      have hsecond := hcommaPasses.length
      rw [List.length_singleton] at hsecond
      have hlength : u.ahead.length ≤ n := by omega
      obtain ⟨bs, v, hmore, hviews, hmorePasses⟩ :=
        ih (fun a ha => hfront a (List.mem_cons_of_mem _ ha))
          (fun a ha => hitem a (List.mem_cons_of_mem _ ha)) hu hlength (by omega)
      refine ⟨b :: bs, v, ?_, by rw [List.map_cons, List.map_cons, hview, hviews],
        hpasses.trans (hcommaPasses.trans hmorePasses)⟩
      rw [separated_succ hkind, bind_of_ok hread, bind_of_ok heat, if_pos rfl, bind_of_ok hmore]
      rfl

/-- Where every item that is read has a text that is passed, items that are read have texts with
commas between them that are passed. -/
theorem listed_of_separated {out : α → β} {P : α → Prop}
    (hitem : ∀ s b t, s.ahead.length ≤ bound → item s = .ok b t →
      ∃ a, out a = b ∧ P a ∧ s.Passes (text a) t)
    {n : Nat} {s t : TokenStream} {bs : List β} (hbound : s.ahead.length ≤ bound)
    (h : separated item close n s = .ok bs t) :
    ∃ as inside, as.map out = bs ∧ (∀ a ∈ as, P a) ∧ Listed text as inside ∧
      s.Passes inside t := by
  induction n generalizing s bs with
  | zero =>
    by_cases hkind : s.current.kind = close
    · rw [separated_of_close hkind] at h
      cases h
      exact ⟨[], [], rfl, by simp, .none, .refl _⟩
    · rw [separated_zero hkind] at h
      obtain ⟨b, u, hread, hrest⟩ := bind_eq_ok_iff.mp h
      obtain ⟨rfl, rfl⟩ := pure_eq_ok_iff.mp hrest
      obtain ⟨a, rfl, ha, hpasses⟩ := hitem s b t hbound hread
      exact ⟨[a], text a, rfl, by simpa using ha, .one, hpasses⟩
  | succ n ih =>
    by_cases hkind : s.current.kind = close
    · rw [separated_of_close hkind] at h
      cases h
      exact ⟨[], [], rfl, by simp, .none, .refl _⟩
    · rw [separated_succ hkind] at h
      obtain ⟨b, u, hread, hmore⟩ := bind_eq_ok_iff.mp h
      obtain ⟨a, rfl, ha, hpasses⟩ := hitem s b u hbound hread
      obtain ⟨again, v, heat, hrest⟩ := bind_eq_ok_iff.mp hmore
      obtain ⟨hcomma, rfl, rfl⟩ | ⟨_, rfl, rfl⟩ := eat_eq_ok_iff.mp heat
      · rw [if_pos rfl] at hrest
        obtain ⟨bs, w, hbs, hend⟩ := bind_eq_ok_iff.mp hrest
        obtain ⟨rfl, rfl⟩ := pure_eq_ok_iff.mp hend
        have hcommaPasses : u.Passes [u.current] u.next := passes_next (by rw [hcomma]; simp)
        have hnext : u.next.ahead.length ≤ bound := by
          have hfirst := hpasses.length
          have hsecond := hcommaPasses.length
          omega
        obtain ⟨as, inside, rfl, has, hlisted, hinside⟩ := ih hnext hbs
        exact ⟨a :: as, _, rfl, List.forall_mem_cons.mpr ⟨ha, has⟩, .more hcomma hlisted,
          hpasses.trans (hcommaPasses.trans hinside)⟩
      · obtain ⟨rfl, rfl⟩ := pure_eq_ok_iff.mp hrest
        exact ⟨[a], text a, rfl, by simpa using ha, .one, hpasses⟩

/-- The same for items that are paired with their texts. -/
theorem pairs_of_separated {Written : β → List Token → Prop}
    (hitem : ∀ s b t, s.ahead.length ≤ bound → item s = .ok b t →
      ∃ text, Written b text ∧ s.Passes text t)
    {n : Nat} {s t : TokenStream} {bs : List β} (hbound : s.ahead.length ≤ bound)
    (h : separated item close n s = .ok bs t) :
    ∃ (pairs : List (β × List Token)) (inside : List Token), pairs.map Prod.fst = bs ∧
      (∀ p ∈ pairs, Written p.1 p.2) ∧ Listed Prod.snd pairs inside ∧ s.Passes inside t := by
  refine listed_of_separated (fun s b t hn h => ?_) hbound h
  obtain ⟨text, hwritten, hpasses⟩ := hitem s b t hn h
  exact ⟨(b, text), rfl, hwritten, hpasses⟩

end Parser

end Piecewise
