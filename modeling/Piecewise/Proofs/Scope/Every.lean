import Piecewise.Proofs.Scope.Lookup

/-!
# What holds of every symbol

Something that holds of every symbol in scope holds of what a name resolves to. It goes on to hold
when a symbol of which it holds is declared, when symbols are changed in a way that keeps it, and
when a frame is entered or left.
-/

namespace Piecewise

def Scope.Every (P : Symbol → Prop) (s : Scope) : Prop := ∀ symbol ∈ s.symbols, P symbol

structure Scopes.Every (P : Symbol → Prop) (s : Scopes) : Prop where
  global : s.global.Every P
  locals : ∀ scope ∈ s.locals, scope.Every P

variable {P : Symbol → Prop}

namespace Scope

variable {s t : Scope}

theorem every_empty : empty.Every P := nofun

theorem Every.get? (h : s.Every P) {name : String} {symbol : Symbol}
    (hfound : s.get? name = some symbol) : P symbol := h symbol (List.mem_of_find?_eq_some hfound)

theorem Every.declare (h : s.Every P) {symbol : Symbol} (hsymbol : P symbol) {place : Position}
    (hstep : s.declare symbol place = .ok t) : t.Every P := by
  obtain ⟨_, rfl⟩ := declare_eq_ok_iff.mp hstep
  intro other hother
  rcases List.mem_append.mp hother with hother | hother
  · exact h other hother
  · rwa [List.mem_singleton.mp hother]

theorem Every.modify (h : s.Every P) (name : String) {change : Symbol → Symbol}
    (hchange : ∀ symbol, P symbol → P (change symbol)) : (s.modify name change).Every P := by
  have hsymbols : ∀ symbols : List Symbol, (⟨symbols⟩ : Scope).Every P →
      (⟨modifyIn name change symbols⟩ : Scope).Every P := by
    intro symbols
    induction symbols with
    | nil => exact fun h => h
    | cons symbol rest ih =>
      intro h
      obtain ⟨hsymbol, hrest⟩ := List.forall_mem_cons.mp h
      show ∀ other ∈ modifyIn name change (symbol :: rest), _
      rw [modifyIn]
      split
      · exact List.forall_mem_cons.mpr ⟨hchange symbol hsymbol, hrest⟩
      · exact List.forall_mem_cons.mpr ⟨hsymbol, ih hrest⟩
  exact hsymbols s.symbols h

theorem Every.bind (h : s.Every P) (values : List Value)
    (hbind : ∀ symbol value, P symbol → P (symbol.bind value)) : (s.bind values).Every P := by
  have hsymbols : ∀ symbols : List Symbol, (⟨symbols⟩ : Scope).Every P →
      (⟨bindIn symbols values⟩ : Scope).Every P := by
    induction values with
    | nil =>
      intro symbols h
      rwa [bindIn_nil]
    | cons value values ih =>
      intro symbols h
      cases symbols with
      | nil => exact h
      | cons symbol rest =>
        obtain ⟨hsymbol, hrest⟩ := List.forall_mem_cons.mp h
        exact List.forall_mem_cons.mpr ⟨hbind symbol value hsymbol, ih rest hrest⟩
  exact hsymbols s.symbols h

end Scope

namespace Scopes

variable {s t : Scopes}

theorem Every.resolve? (h : s.Every P) {name : String} {symbol : Symbol}
    (hfound : s.resolve? name = some symbol) : P symbol := by
  obtain ⟨scope, hscope, hsymbol⟩ := List.exists_of_findSome?_eq_some hfound
  rcases List.mem_append.mp hscope with hscope | hscope
  · exact (h.locals scope hscope).get? hsymbol
  · rw [List.mem_singleton] at hscope
    exact h.global.get? (hscope ▸ hsymbol)

theorem Every.current (h : s.Every P) : s.current.Every P := by
  obtain ⟨global, locals⟩ := s
  cases locals with
  | nil => exact h.global
  | cons frame outer => exact h.locals frame List.mem_cons_self

theorem Every.setCurrent (h : s.Every P) {scope : Scope} (hscope : scope.Every P) :
    (s.setCurrent scope).Every P := by
  obtain ⟨global, locals⟩ := s
  cases locals with
  | nil => exact ⟨hscope, nofun⟩
  | cons frame outer =>
    exact ⟨h.global, List.forall_mem_cons.mpr ⟨hscope, (List.forall_mem_cons.mp h.locals).2⟩⟩

theorem Every.declare (h : s.Every P) {symbol : Symbol} (hsymbol : P symbol) {place : Position}
    (hstep : s.declare symbol place = .ok t) : t.Every P := by
  unfold Scopes.declare at hstep
  cases hscope : s.current.declare symbol place with
  | error d => rw [hscope] at hstep; cases hstep
  | ok scope =>
    rw [hscope] at hstep
    cases hstep
    exact h.setCurrent (h.current.declare hsymbol hscope)

/-- The frame of a call holds nothing yet, and all else in scope is global. -/
theorem Every.enterFrame (h : s.Every P) : s.enterFrame.2.Every P :=
  ⟨h.global, List.forall_mem_singleton.mpr Scope.every_empty⟩

/-- Back from a frame, the local scopes are as before. -/
theorem Every.leaveFrame (h : t.Every P) (k : s.Every P) : (t.leaveFrame s.locals).Every P :=
  ⟨h.global, k.locals⟩

end Scopes

end Piecewise
