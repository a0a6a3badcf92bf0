import Piecewise.Proofs.Scope.Lookup

/-!
# Names that two programs share

Two programs may agree on some names and differ on all others. If the functions that go by the
names they agree on use no other name, apart from their own parameters, then nothing that starts
from such a name ever comes to a name on which the programs differ.
-/

namespace Piecewise

/-- The names used as values and the callees of calls are all among the allowed ones. -/
structure OnlyNames (allowed : String → Prop) (names : List String)
    (calls : List CallSite) : Prop where
  values : ∀ name ∈ names, allowed name
  callees : ∀ c ∈ calls, allowed c.callee

namespace OnlyNames

variable {allowed : String → Prop}

instance [DecidablePred allowed] (names : List String) (calls : List CallSite) :
    Decidable (OnlyNames allowed names calls) :=
  decidable_of_iff ((∀ name ∈ names, allowed name) ∧ ∀ c ∈ calls, allowed c.callee)
    ⟨fun h => ⟨h.1, h.2⟩, fun h => ⟨h.values, h.callees⟩⟩

theorem append {first second : List String} {calls calls' : List CallSite}
    (h : OnlyNames allowed (first ++ second) (calls ++ calls')) :
    OnlyNames allowed first calls ∧ OnlyNames allowed second calls' :=
  ⟨⟨fun name hname => h.values name (List.mem_append_left _ hname),
      fun c hc => h.callees c (List.mem_append_left _ hc)⟩,
    ⟨fun name hname => h.values name (List.mem_append_right _ hname),
      fun c hc => h.callees c (List.mem_append_right _ hc)⟩⟩

theorem nil : OnlyNames allowed [] [] := by
  constructor <;> simp

theorem join {first second : List String} {calls calls' : List CallSite}
    (h : OnlyNames allowed first calls) (k : OnlyNames allowed second calls') :
    OnlyNames allowed (first ++ second) (calls ++ calls') := by
  constructor
  · intro name hname
    exact (List.mem_append.mp hname).elim (h.values name) (k.values name)
  · intro c hc
    exact (List.mem_append.mp hc).elim (h.callees c) (k.callees c)

theorem weaken {allowed' : String → Prop} {names : List String} {calls : List CallSite}
    (h : OnlyNames allowed names calls) (k : ∀ name, allowed name → allowed' name) :
    OnlyNames allowed' names calls :=
  ⟨fun name hname => k name (h.values name hname), fun c hc => k c.callee (h.callees c hc)⟩

/-- The names of the arguments of a call are among its names. -/
theorem arguments {callee : String} {arguments : List Expr} {names : List String}
    {calls : List CallSite} (h : OnlyNames allowed names (⟨callee, arguments⟩ :: calls)) :
    OnlyNames allowed names calls :=
  ⟨h.values, fun c hc => h.callees c (List.mem_cons_of_mem _ hc)⟩

/-- The names of a part of a body are among those of the body. -/
theorem part {body : Body} (h : OnlyNames allowed body.identifiers body.calls) {e : Expr}
    (he : e ∈ body.parts) : OnlyNames allowed e.identifiers e.calls :=
  ⟨fun name hname => h.values name (List.mem_flatMap_of_mem he hname),
    fun c hc => h.callees c (List.mem_flatMap_of_mem he hc)⟩

/-- The names of a body are those of its parts. -/
theorem of_parts {body : Body} (h : ∀ e ∈ body.parts, OnlyNames allowed e.identifiers e.calls) :
    OnlyNames allowed body.identifiers body.calls := by
  constructor
  · intro name hname
    obtain ⟨e, he, hmem⟩ := List.mem_flatMap.mp hname
    exact (h e he).values name hmem
  · intro c hc
    obtain ⟨e, he, hmem⟩ := List.mem_flatMap.mp hc
    exact (h e he).callees c hmem

/-- The names of a branch are among those of the body that it is a branch of. -/
theorem branch {span : Span} {branches : List Branch} {otherwise : Expr}
    (h : OnlyNames allowed (Body.piecewise span branches otherwise).identifiers
      (Body.piecewise span branches otherwise).calls) {branch : Branch}
    (hb : branch ∈ branches) :
    OnlyNames allowed branch.guard.identifiers branch.guard.calls ∧
      OnlyNames allowed branch.action.identifiers branch.action.calls := by
  have hguard : branch.guard ∈ (Body.piecewise span branches otherwise).parts :=
    List.mem_append_left _ (List.mem_flatMap_of_mem hb List.mem_cons_self)
  have haction : branch.action ∈ (Body.piecewise span branches otherwise).parts :=
    List.mem_append_left _
      (List.mem_flatMap_of_mem hb (List.mem_cons_of_mem _ List.mem_cons_self))
  exact ⟨h.part hguard, h.part haction⟩

theorem otherwise {span : Span} {branches : List Branch} {otherwise : Expr}
    (h : OnlyNames allowed (Body.piecewise span branches otherwise).identifiers
      (Body.piecewise span branches otherwise).calls) :
    OnlyNames allowed otherwise.identifiers otherwise.calls :=
  h.part (List.mem_append_right _ List.mem_cons_self)

end OnlyNames

/-- Two programs with the same functions under the names they share. In the body of such a function
every name is a parameter of it or shared again. -/
structure Shared (p q : Program) (shared : String → Prop) : Prop where
  same : ∀ name, shared name → p.find? name = q.find? name
  closed : ∀ d ∈ p.declarations, shared d.name →
    OnlyNames (fun name => name ∈ d.parameterNames ∨ shared name) d.body.identifiers d.body.calls

/-- Programs that find the same function under every name share all names. -/
theorem Shared.of_find? {p q : Program} (h : ∀ name, p.find? name = q.find? name) :
    Shared p q fun _ => True :=
  ⟨fun name _ => h name, fun _ _ _ =>
    ⟨fun _ _ => Or.inr trivial, fun _ _ => Or.inr trivial⟩⟩

end Piecewise
