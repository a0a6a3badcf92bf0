import Piecewise.Proofs.Scope.Lookup
import Piecewise.Scope.Table

/-!
# Tables and scopes

Without its index a table is a scope. Looking names up, declaring symbols and changing them come to
the same in both, whatever was done before.
-/

namespace Piecewise

namespace Table

variable {t : Table} {name : String}

def scope (t : Table) : Scope := ⟨t.symbols.toList⟩

theorem scope_empty : empty.scope = .empty := rfl

/-- The index finds the first symbol of a name. -/
theorem get?_eq (t : Table) (name : String) : t.get? name = t.scope.get? name := by
  have hsearch : t.scope.get? name = t.symbols.find? fun symbol => symbol.name = name :=
    Array.find?_toList
  rw [hsearch]
  unfold get?
  split
  · rename_i hindex
    rw [t.indexed, Array.findIdx?_eq_none_iff] at hindex
    exact (Array.find?_eq_none.mpr fun symbol hmem => by simpa using hindex symbol hmem).symm
  · rename_i i hindex
    rw [t.indexed, Array.findIdx?_eq_some_iff_getElem] at hindex
    obtain ⟨hi, hname, hbefore⟩ := hindex
    rw [eq_comm, Array.find?_eq_some_iff_getElem]
    exact ⟨hname, i, hi, rfl, fun j hj => by simpa using hbefore j hj⟩

theorem contains_index_iff : t.index.contains name = true ↔ name ∈ t.scope.names := by
  have hnone : t.index[name]? = none ↔ name ∉ t.scope.names := by
    rw [t.indexed, Array.findIdx?_eq_none_iff]
    simp [scope, Scope.names]
  rw [Std.HashMap.contains_eq_isSome_getElem?, Option.isSome_iff_ne_none, Ne, hnone, not_not]

/-- A symbol is declared in a table exactly if it is in its scope, and with the same fault. -/
theorem declare_scope (t : Table) (symbol : Symbol) (place : Position) :
    (t.declare symbol place).map scope = t.scope.declare symbol place := by
  unfold declare
  split
  · rename_i htaken
    rw [Scope.declare_of_mem (contains_index_iff.mp htaken)]
    rfl
  · rename_i hnew
    have hname : symbol.name ∉ t.scope.names := by
      rw [← contains_index_iff, hnew]
      exact Bool.false_ne_true
    rw [Scope.declare_eq_ok_iff.mpr ⟨hname, rfl⟩]
    exact congrArg (fun symbols => Except.ok (Scope.mk symbols)) Array.toList_push

/-- A search changes the symbol at the first position of the name. -/
theorem modifyIn_eq (name : String) (change : Symbol → Symbol) (symbols : List Symbol) :
    Scope.modifyIn name change symbols =
      match symbols.findIdx? fun symbol => symbol.name = name with
      | none => symbols
      | some i => symbols.modify i change := by
  induction symbols with
  | nil => rfl
  | cons symbol rest ih =>
    rw [Scope.modifyIn, List.findIdx?_cons]
    by_cases hname : symbol.name = name
    · simp [hname]
    · rw [if_neg hname, ih]
      cases hrest : rest.findIdx? fun symbol => symbol.name = name <;> simp [hname]

/-- What is changed at the position that the index has is changed where a search finds it. -/
theorem modify_scope (t : Table) (name : String) {change : Symbol → Symbol}
    (hname : ∀ symbol, (change symbol).name = symbol.name) :
    (t.modify name change hname).scope = t.scope.modify name change := by
  have hindex : t.index[name]? = t.scope.symbols.findIdx? fun symbol => symbol.name = name := by
    rw [t.indexed, scope, ← List.findIdx?_toArray]
  rw [Scope.modify, modifyIn_eq, ← hindex]
  unfold modify
  cases t.index[name]? with
  | none => rfl
  | some i => exact congrArg Scope.mk Array.toList_modify

theorem foldlM_declare_scope (ds : List Declaration) (t : Table) :
    (ds.foldlM (fun (t : Table) d => t.declare (.ofDeclaration d) d.span.start) t).map scope =
      t.scope.declareAll (ds.map fun d => (.ofDeclaration d, d.span.start)) := by
  induction ds generalizing t with
  | nil => rfl
  | cons d ds ih =>
    rw [List.foldlM_cons, List.map_cons, Scope.declareAll_cons, ← declare_scope]
    cases t.declare (.ofDeclaration d) d.span.start with
    | error fault => rfl
    | ok next => exact ih next

/-- The table of a program holds the global scope of the program. -/
theorem ofProgram_scope (p : Program) :
    (ofProgram p).map (fun t => Scopes.mk t.scope []) = Scopes.ofProgram p := by
  rw [Scopes.ofProgram_eq_declareAll, ← scope_empty, ← foldlM_declare_scope]
  unfold ofProgram
  cases p.declarations.foldlM (fun (t : Table) d => t.declare (.ofDeclaration d) d.span.start) empty
  · rfl
  · rfl

end Table

end Piecewise
