import Piecewise.Proofs.Scope.Lookup
import Piecewise.Proofs.Value.Paired

/-!
# Scopes of two runs side by side

Scopes are paired when they have the same names in the same order, and under each name symbols that
stand for paired values. What is looked up or declared in paired scopes is paired again.
-/

namespace Piecewise

namespace Symbol

/-- Two symbols of one name and type that stand for paired values. -/
structure Paired (lists : Nat → Nat → Prop) (functions : Declaration → Declaration → Prop)
    (s t : Symbol) : Prop where
  name : t.name = s.name
  type : t.type = s.type
  declaration : Option.Rel functions s.declaration? t.declaration?
  value : Option.Rel (Value.Paired lists functions) s.value t.value

variable {lists lists' : Nat → Nat → Prop} {functions : Declaration → Declaration → Prop}
  {s t : Symbol}

theorem rel_mono {α : Type} {r r' : α → α → Prop} (h : ∀ a b, r a b → r' a b) :
    ∀ {a b : Option α}, Option.Rel r a b → Option.Rel r' a b
  | _, _, .none => .none
  | _, _, .some hab => .some (h _ _ hab)

theorem rel_isNone {α : Type} {r : α → α → Prop} :
    ∀ {a b : Option α}, Option.Rel r a b → b.isNone = a.isNone
  | _, _, .none => rfl
  | _, _, .some _ => rfl

theorem Paired.mono (h : ∀ i j, lists i j → lists' i j) (hst : Paired lists functions s t) :
    Paired lists' functions s t :=
  ⟨hst.name, hst.type, hst.declaration, rel_mono (fun _ _ => Value.Paired.mono h) hst.value⟩

theorem Paired.isUnbound (h : Paired lists functions s t) : t.isUnbound = s.isUnbound := by
  unfold Symbol.isUnbound
  rw [rel_isNone h.value, rel_isNone h.declaration]

theorem Paired.bind (h : Paired lists functions s t) {v w : Value}
    (hvalue : v.Paired lists functions w) : Paired lists functions (s.bind v) (t.bind w) := by
  unfold Symbol.bind
  rw [Value.isFunction_paired hvalue]
  split
  · exact h
  · exact ⟨h.name, h.type, h.declaration, .some hvalue⟩

end Symbol

namespace Scope

def Paired (lists : Nat → Nat → Prop) (functions : Declaration → Declaration → Prop)
    (s t : Scope) : Prop :=
  List.Forall₂ (Symbol.Paired lists functions) s.symbols t.symbols

variable {lists lists' : Nat → Nat → Prop} {functions : Declaration → Declaration → Prop}
  {s t : Scope}

theorem Paired.mono (h : ∀ i j, lists i j → lists' i j) (hst : Paired lists functions s t) :
    Paired lists' functions s t :=
  List.Forall₂.imp (fun _ _ => Symbol.Paired.mono h) hst

theorem Paired.get? (h : Paired lists functions s t) (name : String) :
    Option.Rel (Symbol.Paired lists functions) (s.get? name) (t.get? name) := by
  obtain ⟨symbols⟩ := s
  obtain ⟨symbols'⟩ := t
  have hsymbols : List.Forall₂ (Symbol.Paired lists functions) symbols symbols' := h
  unfold Scope.get?
  induction hsymbols with
  | nil => exact .none
  | cons hsymbol _ ih =>
    rw [List.find?_cons, List.find?_cons, hsymbol.name]
    split
    · exact .some hsymbol
    · exact ih ‹_›

theorem Paired.append (h : Paired lists functions s t) {symbol symbol' : Symbol}
    (hsymbol : Symbol.Paired lists functions symbol symbol') :
    Paired lists functions ⟨s.symbols ++ [symbol]⟩ ⟨t.symbols ++ [symbol']⟩ :=
  List.rel_append h (.cons hsymbol .nil)

theorem Paired.bind (h : Paired lists functions s t) {vs ws : List Value}
    (hvalues : List.Forall₂ (Value.Paired lists functions) vs ws) :
    Paired lists functions (s.bind vs) (t.bind ws) := by
  obtain ⟨symbols⟩ := s
  obtain ⟨symbols'⟩ := t
  have hsymbols : List.Forall₂ (Symbol.Paired lists functions) symbols symbols' := h
  change List.Forall₂ (Symbol.Paired lists functions) (bindIn symbols vs) (bindIn symbols' ws)
  clear h
  induction hsymbols generalizing vs ws with
  | nil => exact .nil
  | cons hsymbol hrest ih =>
    cases hvalues with
    | nil => exact .cons hsymbol hrest
    | cons hvalue hvalues => exact .cons (hsymbol.bind hvalue) (ih hvalues)

end Scope

namespace Scopes

structure Paired (lists : Nat → Nat → Prop) (functions : Declaration → Declaration → Prop)
    (s t : Scopes) : Prop where
  global : Scope.Paired lists functions s.global t.global
  locals : List.Forall₂ (Scope.Paired lists functions) s.locals t.locals

variable {lists lists' : Nat → Nat → Prop} {functions : Declaration → Declaration → Prop}
  {s t : Scopes}

theorem Paired.mono (h : ∀ i j, lists i j → lists' i j) (hst : Paired lists functions s t) :
    Paired lists' functions s t :=
  ⟨hst.global.mono h, hst.locals.imp fun _ _ => Scope.Paired.mono h⟩

theorem Paired.resolve? (h : Paired lists functions s t) (name : String) :
    Option.Rel (Symbol.Paired lists functions) (s.resolve? name) (t.resolve? name) := by
  unfold Scopes.resolve?
  have hscopes : List.Forall₂ (Scope.Paired lists functions) (s.locals ++ [s.global])
      (t.locals ++ [t.global]) := List.rel_append h.locals (.cons h.global .nil)
  generalize s.locals ++ [s.global] = scopes at hscopes
  generalize t.locals ++ [t.global] = scopes' at hscopes
  induction hscopes with
  | nil => exact .none
  | cons hscope _ ih =>
    rename_i scope scope' rest rest' _
    rw [List.findSome?_cons, List.findSome?_cons]
    have hfound := hscope.get? name
    generalize scope.get? name = found at hfound ⊢
    generalize scope'.get? name = found' at hfound ⊢
    cases hfound with
    | some hsymbol => exact .some hsymbol
    | none => exact ih

/-- The allocations of the lists that are bound to names. -/
def allocations (s : Scopes) : List Nat :=
  (s.locals ++ [s.global]).flatMap fun scope =>
    scope.symbols.flatMap fun symbol => Value.allocationsAll symbol.value.toList

/-- Scopes are paired with themselves where their lists stand for themselves. -/
theorem paired_self (hfunctions : ∀ d, functions d d) (h : ∀ i ∈ s.allocations, lists i i) :
    Paired lists functions s s := by
  have hsymbol : ∀ scope ∈ s.locals ++ [s.global], ∀ symbol ∈ scope.symbols,
      Symbol.Paired lists functions symbol symbol := by
    intro scope hscope symbol hsymbol
    refine ⟨rfl, rfl, ?_, ?_⟩
    · cases symbol.declaration? with
      | none => exact .none
      | some d => exact .some (hfunctions d)
    · cases hvalue : symbol.value with
      | none => exact .none
      | some v =>
        refine .some (Value.paired_self hfunctions v fun i hi => h i ?_)
        refine List.mem_flatMap.mpr ⟨scope, hscope, List.mem_flatMap.mpr ⟨symbol, hsymbol, ?_⟩⟩
        rw [hvalue, Option.toList_some, Value.allocationsAll, Value.allocationsAll,
          List.append_nil]
        exact hi
  have hscope : ∀ scope ∈ s.locals ++ [s.global], Scope.Paired lists functions scope scope :=
    fun scope hscope => List.forall₂_same.mpr (hsymbol scope hscope)
  refine ⟨hscope s.global (by simp), List.forall₂_same.mpr fun scope hmem => ?_⟩
  exact hscope scope (List.mem_append_left _ hmem)

end Scopes

end Piecewise
