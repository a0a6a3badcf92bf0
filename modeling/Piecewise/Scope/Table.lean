import Mathlib.Data.List.Basic
import Piecewise.Program.Basic
import Piecewise.Scope.Basic

/-!
# Scopes with an index

A table holds the symbols of one level in the order of their declaration, and a hash index from
names to positions. Names are looked up in the index alone, so a table carries with it that the
index tells the first position of every name.
-/

namespace Piecewise

/-- Symbols oldest first, with the position of the first symbol of every name. -/
structure Table where
  symbols : Array Symbol
  index : Std.HashMap String Nat
  indexed : ∀ name, index[name]? = symbols.findIdx? fun symbol => symbol.name = name

namespace Table

def empty : Table := ⟨#[], ∅, fun name => by simp⟩

theorem lt_size_of_index {t : Table} {name : String} {i : Nat} (h : t.index[name]? = some i) :
    i < t.symbols.size := by
  rw [t.indexed, Array.findIdx?_eq_some_iff_getElem] at h
  exact h.1

/-- The symbol at the position that the index has for the name. -/
def get? (t : Table) (name : String) : Option Symbol :=
  match h : t.index[name]? with
  | none => none
  | some i =>
    have hi : i < t.symbols.size := lt_size_of_index h
    some t.symbols[i]

theorem indexed_push (t : Table) (symbol : Symbol) (h : t.index.contains symbol.name = false)
    (name : String) :
    (t.index.insert symbol.name t.symbols.size)[name]? =
      (t.symbols.push symbol).findIdx? fun other => other.name = name := by
  rw [Std.HashMap.getElem?_insert, Array.findIdx?_push, ← t.indexed]
  by_cases hname : symbol.name = name
  · subst hname
    rw [Std.HashMap.getElem?_eq_none_of_contains_eq_false h]
    simp
  · simp [hname]

/-- The table with one more symbol, unless its name is in the index. -/
def declare (t : Table) (symbol : Symbol) (place : Position) : Except Diagnostic Table :=
  match h : t.index.contains symbol.name with
  | true => .error ((Fault.duplicateIdentifier symbol.name).at place)
  | false => .ok ⟨t.symbols.push symbol, t.index.insert symbol.name t.symbols.size,
      t.indexed_push symbol h⟩

theorem findIdx?_names (symbols : Array Symbol) (name : String) :
    (symbols.findIdx? fun symbol => symbol.name = name) =
      (symbols.map Symbol.name).findIdx? fun other => other = name := by
  rw [Array.findIdx?_map]
  rfl

theorem names_modify {change : Symbol → Symbol}
    (hname : ∀ symbol, (change symbol).name = symbol.name) (symbols : Array Symbol) (i : Nat) :
    (symbols.modify i change).map Symbol.name = symbols.map Symbol.name := by
  refine Array.ext_getElem? fun j => ?_
  rw [Array.getElem?_map, Array.getElem?_map, Array.getElem?_modify]
  split
  · rw [Option.map_map]
    exact congrArg (symbols[j]?.map ·) (funext hname)
  · rfl

theorem indexed_modify (t : Table) {change : Symbol → Symbol}
    (hname : ∀ symbol, (change symbol).name = symbol.name) (i : Nat) (name : String) :
    t.index[name]? = (t.symbols.modify i change).findIdx? fun symbol => symbol.name = name := by
  rw [t.indexed, findIdx?_names, findIdx?_names, names_modify hname]

/-- The table with the symbol of a name changed, but for its name. -/
def modify (t : Table) (name : String) (change : Symbol → Symbol)
    (hname : ∀ symbol, (change symbol).name = symbol.name) : Table :=
  match t.index[name]? with
  | none => t
  | some i => { t with symbols := t.symbols.modify i change, indexed := t.indexed_modify hname i }

/-- The table in which every declaration of a program has its symbol, in order. -/
def ofProgram (p : Program) : Except Diagnostic Table :=
  p.declarations.foldlM (fun t d => t.declare (.ofDeclaration d) d.span.start) .empty

end Table

end Piecewise
