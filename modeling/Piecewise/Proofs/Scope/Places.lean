import Piecewise.Proofs.Diagnostic.Outcome
import Piecewise.Proofs.Program.Nodes
import Piecewise.Proofs.Scope.Every

/-!
# Declarations in scope and their places

Scopes hold the declarations of a program. As long as all of these have their nodes at places of one
sort, so has every declaration that a name resolves to, and declaring a parameter changes nothing in
that. A name that is taken or unknown is a fault at the place where it is declared or used.
-/

namespace Piecewise

open Piecewise.Span

variable {S : Position → Prop}

/-- The declaration that a symbol holds, if it holds one, has its nodes at places of the given
sort. -/
def Symbol.HoldsAt (S : Position → Prop) (symbol : Symbol) : Prop :=
  ∀ d, symbol.declaration? = some d → d.Nodes (StartsAt S)

theorem Symbol.holdsAt_of_role {symbol : Symbol} (h : symbol.role = .parameter) :
    symbol.HoldsAt S := by
  intro d hd
  rw [Symbol.declaration?, h] at hd
  cases hd

theorem Symbol.HoldsAt.bind {symbol : Symbol} (value : Value) (h : symbol.HoldsAt S) :
    (symbol.bind value).HoldsAt S := by
  unfold Symbol.bind
  split
  · exact h
  · exact h

/-- A symbol that holds no declaration from elsewhere is declared, or its name is taken. -/
theorem Scope.declare_gives {s : Scope} {symbol : Symbol} {place : Position}
    (hs : s.Every (Symbol.HoldsAt S)) (hsymbol : symbol.HoldsAt S) (hplace : S place) :
    Gives (·.PointsAt S) (s.declare symbol place) (·.Every (Symbol.HoldsAt S)) := by
  cases h : s.declare symbol place with
  | ok t => exact hs.declare hsymbol h
  | error d =>
    unfold Scope.declare at h
    split at h
    · cases h
      exact ⟨place, rfl, hplace⟩
    · cases h

theorem Scopes.declare_gives {s : Scopes} {symbol : Symbol} {place : Position}
    (hs : s.Every (Symbol.HoldsAt S)) (hsymbol : symbol.HoldsAt S) (hplace : S place) :
    Gives (·.PointsAt S) (s.declare symbol place) (·.Every (Symbol.HoldsAt S)) :=
  (Scope.declare_gives hs.current hsymbol hplace).map fun _ hscope => hs.setCurrent hscope

/-- The functions of a program are declared, or the name of one is taken. -/
theorem Scopes.ofProgram_gives {p : Program} (h : ∀ d ∈ p.declarations, d.Nodes (StartsAt S)) :
    Gives (·.PointsAt S) (ofProgram p) (·.Every (Symbol.HoldsAt S)) := by
  have hfold : ∀ (ds : List Declaration) (s : Scopes), (∀ d ∈ ds, d.Nodes (StartsAt S)) →
      s.Every (Symbol.HoldsAt S) →
      Gives (·.PointsAt S)
        (ds.foldlM (fun scopes d => scopes.declareGlobal (.ofDeclaration d) d.span.start) s)
        (·.Every (Symbol.HoldsAt S)) := by
    intro ds
    induction ds with
    | nil => exact fun s _ hs => hs
    | cons d ds ih =>
      intro s hds hs
      obtain ⟨hd, hrest⟩ := List.forall_mem_cons.mp hds
      have hsymbol : (Symbol.ofDeclaration d).HoldsAt S := fun _ hsame => Option.some.inj hsame ▸ hd
      rw [List.foldlM_cons]
      refine Gives.bind (Gives.map (Scope.declare_gives hs.global hsymbol hd.node) ?_)
        fun t ht => ih t hrest ht
      exact fun scope hscope => ⟨hscope, hs.locals⟩
  exact hfold p.declarations .empty h ⟨Scope.every_empty, nofun⟩

theorem Scopes.resolve_gives {s : Scopes} (hs : s.Every (Symbol.HoldsAt S)) (name : String)
    {place : Position} (hplace : S place) :
    Gives (·.PointsAt S) (s.resolve name place) (Symbol.HoldsAt S) := by
  unfold Scopes.resolve
  cases hfound : s.resolve? name with
  | none => exact ⟨place, rfl, hplace⟩
  | some symbol => exact hs.resolve? hfound

end Piecewise
