import Piecewise.Proofs.Run.Extension
import Piecewise.Proofs.Scope.Table

/-!
# Declared names and searched names

The pass that declares a program and a search through its declarations agree. The pass fails where a
name comes again, and is told so by the names and places alone. Where it does not, the symbol of any
name, by the index as well as by the list, stands for the function that a search would find first,
and so does the entry of a run.
-/

namespace Piecewise

namespace Program

variable {p q : Program}

/-- A fault of the declaration pass is told by names and places, in order. -/
theorem ofProgram_error_of_heads {fault : Diagnostic}
    (h : q.declarations.map (fun d => (d.name, d.span.start)) =
      p.declarations.map fun d => (d.name, d.span.start))
    (hfault : Scopes.ofProgram p = .error fault) : Scopes.ofProgram q = .error fault := by
  obtain ⟨before, d, after, hsplit, hnodup, hrepeats, rfl⟩ :=
    Scopes.ofProgram_eq_error_iff.mp hfault
  rw [hsplit, List.map_append, List.map_cons] at h
  obtain ⟨before', rest, hsplit', hbefore, hrest⟩ := List.map_eq_append_iff.mp h
  obtain ⟨d', after', rfl, hhead, _⟩ := List.map_eq_cons_iff.mp hrest
  obtain ⟨hname, hplace⟩ := Prod.mk.inj hhead
  have hnames : before'.map Declaration.name = before.map Declaration.name := by
    have hfirst := congrArg (List.map Prod.fst) hbefore
    rwa [List.map_map, List.map_map] at hfirst
  refine Scopes.ofProgram_eq_error_iff.mpr ⟨before', d', after', hsplit', ?_, ?_, ?_⟩
  · rwa [hnames]
  · rwa [hnames, hname]
  · rw [hname, hplace]

theorem exists_ofProgram_error_iff :
    (∃ fault, Scopes.ofProgram p = .error fault) ↔ ¬ p.names.Nodup := by
  constructor
  · rintro ⟨fault, hfault⟩ hp
    rw [Scopes.ofProgram_eq_ok_iff.mpr ⟨hp, rfl⟩] at hfault
    cases hfault
  · intro hp
    cases hdeclared : Scopes.ofProgram p with
    | error fault => exact ⟨fault, rfl⟩
    | ok scopes => exact absurd (Scopes.ofProgram_eq_ok_iff.mp hdeclared).1 hp

/-- What a name stands for where no function has its type is what a search finds. -/
theorem declaration?_globals (p : Program) (resolved : List String) (name : String) :
    ((p.globals resolved).get? name).bind Symbol.declaration? = p.find? name := by
  rw [get?_globals]
  cases p.find? name with
  | none => rfl
  | some d =>
    rw [Option.map_some, Option.bind_some]
    split <;> rfl

/-- The value of a program whose entry is searched for among the declarations, in order. -/
def runSearched (p : Program) (c : Config) (depth : Nat) : Except Evaluation.Halt Value := do
  let checked ← ((Scopes.ofProgram p).bind p.check).mapError .fault
  match p.find? c.entry with
  | some d => d.run c.equality depth checked
  | none => .error (.fault ⟨.missingEntry c.entry, none⟩)

theorem run_eq_runSearched (p : Program) (c : Config) (depth : Nat) :
    p.run c depth = p.runSearched c depth := by
  unfold runSearched
  cases hchecked : (Scopes.ofProgram p).bind p.check with
  | error fault => exact run_of_rejected hchecked c depth
  | ok checked =>
    have haccepted : p.Accepted ⟨p.signatures, []⟩ := by
      rw [Typing.accepted_iff, hchecked]
      rfl
    obtain ⟨declared, hdeclared, hsignatures⟩ := haccepted
    rw [run_of_accepted ⟨declared, hdeclared, hsignatures⟩]
    rw [hdeclared] at hchecked
    cases hchecked.symm.trans hsignatures
    rfl

/-- A program fails to be declared exactly where two of its functions have one name, and then with
the earliest function whose name stands before it, where it starts; bodies have no part in it. If it
is declared, the scopes hold one symbol for each function, in order and without a type, and the
table with an index comes to the same scopes. The symbol of any name, found by the index or in the
list, stands for the function that a search through the declarations finds, and a run starts with
the function that such a search finds for the entry. -/
theorem declared_as_searched (p : Program) :
    ((∃ fault, Scopes.ofProgram p = .error fault) ↔ ¬ p.names.Nodup) ∧
    (∀ fault, Scopes.ofProgram p = .error fault ↔
      ∃ before d after, p.declarations = before ++ d :: after ∧
        (before.map Declaration.name).Nodup ∧ d.name ∈ before.map Declaration.name ∧
        fault = (Fault.duplicateIdentifier d.name).at d.span.start) ∧
    (∀ q : Program, q.declarations.map (fun d => (d.name, d.span.start)) =
        p.declarations.map (fun d => (d.name, d.span.start)) →
      ∀ fault, Scopes.ofProgram q = .error fault ↔ Scopes.ofProgram p = .error fault) ∧
    (∀ scopes, Scopes.ofProgram p = .ok scopes →
      scopes.locals = [] ∧ scopes.global.symbols = p.declarations.map Symbol.ofDeclaration ∧
      (∀ symbol ∈ scopes.global.symbols, symbol.type = .unresolved) ∧
      ∀ name, (scopes.global.get? name).bind Symbol.declaration? = p.find? name) ∧
    (Table.ofProgram p).map (fun t => Scopes.mk t.scope []) = Scopes.ofProgram p ∧
    (∀ t, Table.ofProgram p = .ok t →
      ∀ name, (t.get? name).bind Symbol.declaration? = p.find? name) ∧
    ∀ c depth, p.run c depth = p.runSearched c depth := by
  have hsymbols : (p.globals []).symbols = p.declarations.map Symbol.ofDeclaration := by
    simp [globals]
  refine ⟨exists_ofProgram_error_iff, fun fault => Scopes.ofProgram_eq_error_iff,
    fun q h fault => ⟨ofProgram_error_of_heads h.symm, ofProgram_error_of_heads h⟩, ?_,
    Table.ofProgram_scope p, ?_, run_eq_runSearched p⟩
  · intro scopes hscopes
    obtain ⟨_, rfl⟩ := Scopes.ofProgram_eq_ok_iff.mp hscopes
    refine ⟨rfl, hsymbols, fun symbol hmem => ?_, declaration?_globals p []⟩
    rw [hsymbols] at hmem
    obtain ⟨d, _, rfl⟩ := List.mem_map.mp hmem
    rfl
  · intro t ht name
    have hscopes := Table.ofProgram_scope p
    rw [ht] at hscopes
    obtain ⟨_, hglobal⟩ := Scopes.ofProgram_eq_ok_iff.mp hscopes.symm
    rw [Table.get?_eq, (Scopes.mk.inj hglobal).1, declaration?_globals]

end Program

section Repeated

def mainAgain : Declaration :=
  { callsLast with number := 7, span := ⟨⟨2, 1, "more"⟩, ⟨2, 30, "more"⟩⟩ }

/-- Two programs in one, with a name of the first once more in the second. -/
def repeatingProgram : Program := lastProgram.append ⟨[mainAgain, Typing.unreached], default⟩

/-- The first name that comes again is reported; without the second program, `main` is found. -/
theorem declared_as_searched_repeating :
    Scopes.ofProgram repeatingProgram =
        .error ((Fault.duplicateIdentifier "main").at ⟨2, 1, "more"⟩) ∧
      ∃ t, Table.ofProgram lastProgram = .ok t ∧
        (t.get? "main").bind Symbol.declaration? = some callsLast := by
  obtain ⟨_, hfault, _⟩ := Program.declared_as_searched repeatingProgram
  refine ⟨(hfault _).mpr ⟨lastProgram.declarations, mainAgain, [Typing.unreached], rfl,
    by decide, by decide, rfl⟩, ?_⟩
  obtain ⟨_, _, _, _, htable, hfound, _⟩ := Program.declared_as_searched lastProgram
  have hdeclared : Scopes.ofProgram lastProgram = .ok ⟨lastProgram.globals [], []⟩ := rfl
  rw [hdeclared] at htable
  cases ht : Table.ofProgram lastProgram with
  | error fault =>
    rw [ht] at htable
    cases htable
  | ok t => exact ⟨t, rfl, hfound t ht "main"⟩

end Repeated

end Piecewise
