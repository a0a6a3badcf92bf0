import Piecewise.Proofs.Typing.Abreast
import Piecewise.Proofs.Typing.Sound

/-!
# What checking leaves behind

Checking a program ends, since a visit inside another finds one function less without a type.
However it ends, all that has changed in the scopes are the types of the functions that were
visited, and each of these was visited once.
-/

namespace Piecewise

/-- The symbol without its type: its name, what it stands for, and its value. -/
def Symbol.untyped (s : Symbol) : Symbol := { s with type := .unresolved }

namespace Typing

/-- The state that a step leaves, whether it succeeds or fails. -/
def leftBy {α : Type} : EStateM.Result Diagnostic State α → State
  | .ok _ s => s
  | .error _ s => s

def Unvisited (s : State) (d : Declaration) : Prop :=
  (s.scopes.global.get? d.name).map Symbol.type = some .unresolved ∧ s.visits d.name = 0

/-- A function that has exactly the type it is declared with and has been visited once. -/
def VisitedOnce (s : State) (d : Declaration) : Prop :=
  (s.scopes.global.get? d.name).map Symbol.type = some d.signature ∧ s.visits d.name = 1

/-- The scopes in which a program was declared, with nothing changed but the types of functions
visited since. -/
structure Resolves (p : Program) (declared : Scopes) (s : State) : Prop where
  depth : s.scopes.depth = 1
  symbols : s.scopes.global.symbols.map Symbol.untyped =
    declared.global.symbols.map Symbol.untyped
  functions : ∀ d ∈ p.declarations, Unvisited s d ∨ VisitedOnce s d

section Resolution

variable {p : Program} {d : Declaration} {visited : List String}

theorem type_after (hp : p.names.Nodup) (hd : d ∈ p.declarations) (locals : List Scope) :
    ((State.after p visited locals).scopes.global.get? d.name).map Symbol.type =
      some (if d.name ∈ visited then d.signature else .unresolved) := by
  have hget : (State.after p visited locals).scopes.global.get? d.name =
      some (if d.name ∈ visited then .ofSignature d else .ofDeclaration d) := by
    change (p.globals visited).get? d.name = _
    rw [Program.get?_globals, Program.find?_of_mem hp hd]
    rfl
  rw [hget, Option.map_some]
  split <;> rfl

/-- A function that is among those visited was visited once, as none is visited twice. -/
theorem visitedOnce_after (hp : p.names.Nodup) (hd : d ∈ p.declarations)
    (hnodup : visited.Nodup) (hmem : d.name ∈ visited) (locals : List Scope) :
    VisitedOnce (.after p visited locals) d := by
  constructor
  · rw [type_after hp hd, if_pos hmem]
  · exact List.count_eq_one_of_mem hnodup hmem

theorem unvisited_after (hp : p.names.Nodup) (hd : d ∈ p.declarations)
    (hnew : d.name ∉ visited) (locals : List Scope) :
    Unvisited (.after p visited locals) d := by
  constructor
  · rw [type_after hp hd, if_neg hnew]
  · exact List.count_eq_zero_of_not_mem hnew

theorem resolves_after (hp : p.names.Nodup) (hnodup : visited.Nodup) :
    Resolves p ⟨p.globals [], []⟩ (.after p visited []) := by
  refine ⟨rfl, ?_, fun d hd => ?_⟩
  · have huntyped : ∀ names, (p.globals names).symbols.map Symbol.untyped =
        p.declarations.map Symbol.ofDeclaration := by
      intro names
      rw [Program.globals, List.map_map]
      refine List.map_congr_left fun d _ => ?_
      simp only [Function.comp]
      split <;> rfl
    exact (huntyped visited).trans (huntyped []).symm
  · by_cases hmem : d.name ∈ visited
    · exact Or.inr (visitedOnce_after hp hd hnodup hmem [])
    · exact Or.inl (unvisited_after hp hd hmem [])

theorem comparable_self (hp : p.names.Nodup) : Comparable p p (fun _ => True) [] [] :=
  ⟨hp, hp, .of_find? fun _ => rfl, List.nodup_nil, fun _ _ => Iff.rfl⟩

/-- Checking a program, with visits inside visits down to any depth that its functions do not
exceed, is checking it. What is left are the functions visited, none of them twice. -/
theorem checkProgram_visits (hp : p.names.Nodup) (below : Declaration → Check Unit) {n : Nat}
    (hn : p.declarations.length ≤ n) :
    p.declarations.forM (visitElse below n) (.after p [] []) =
        checkProgram p (.after p [] []) ∧
      ∃ visited, visited.Nodup ∧
        leftBy (checkProgram p (.after p [] [])) = .after p visited [] := by
  have hsame : SameOutcome (Abreast p p (fun _ => True) [] [] n n [])
      (checkProgram p (.after p [] []))
      (p.declarations.forM (visitElse below n) (.after p [] [])) := by
    rw [checkProgram, visitAll_eq_forM]
    refine Alike.forM (fun d hd => ?_) _ _ (.start List.nodup_nil hn hn)
    exact visit_abreast_visitElse (comparable_self hp) below hn hn hd trivial
  generalize checkProgram p (.after p [] []) = outcome at hsame ⊢
  generalize p.declarations.forM (visitElse below n) (.after p [] []) = outcome' at hsame ⊢
  cases hsame with
  | ok a h =>
    obtain ⟨visited, hnodup, _, _, _, rfl, rfl⟩ := h
    exact ⟨rfl, visited ++ [], hnodup, rfl⟩
  | error fault h =>
    obtain ⟨visited, hnodup, _, _, _, rfl, rfl⟩ := h
    exact ⟨rfl, visited ++ [], hnodup, rfl⟩

/-- The check of an accepted program succeeds. -/
theorem checkProgram_of_accepted {checked : Scopes} (h : p.Accepted checked) :
    ∃ s, checkProgram p (.after p [] []) = .ok () s := by
  obtain ⟨declared, hdeclared, hchecked⟩ := h
  obtain ⟨_, rfl⟩ := Scopes.ofProgram_eq_ok_iff.mp hdeclared
  unfold Program.check at hchecked
  split at hchecked
  · rename_i s hok
    exact ⟨s, hok⟩
  · cases hchecked

/-- Where checking succeeds every function was visited: one that was not has no type. -/
theorem mem_of_checkProgram (hp : p.names.Nodup) (hd : d ∈ p.declarations)
    (h : checkProgram p (.after p [] []) = .ok () (.after p visited [])) : d.name ∈ visited := by
  have hchecked : p.check ⟨p.globals [], []⟩ = .ok ⟨p.globals visited, []⟩ := by
    have hinitial : checkProgram p (.initial ⟨p.globals [], []⟩) =
        .ok () (.after p visited []) := h
    rw [Program.check, hinitial]
    rfl
  have haccepted : p.Accepted ⟨p.globals visited, []⟩ :=
    ⟨_, Scopes.ofProgram_eq_ok_iff.mpr ⟨hp, rfl⟩, hchecked⟩
  have hglobals : p.globals visited = p.globals p.names := by
    rw [← Program.signatures_eq_globals]
    exact congrArg Scopes.global (typed_of_accepted haccepted).2.1
  have htype : ∀ names, ((p.globals names).get? d.name).map Symbol.type =
      some (if d.name ∈ names then d.signature else .unresolved) :=
    fun _ => type_after hp hd []
  have hall := htype p.names
  have hname : d.name ∈ p.names := List.mem_map_of_mem hd
  rw [if_pos hname, ← hglobals, htype visited] at hall
  by_contra hnew
  rw [if_neg hnew] at hall
  cases hall

end Resolution

/-- Checking a declared program ends: visits never nest more deeply than there are functions, so it
does not matter what would be done below that depth. Whether it succeeds or fails, the scopes are
as declared but for the types of functions that were visited once each. If it succeeds these are
all functions. -/
theorem checkProgram_resolves {p : Program} {declared : Scopes}
    (h : Scopes.ofProgram p = .ok declared) :
    (∀ below n, p.declarations.length ≤ n →
      p.declarations.forM (visitElse below n) (.initial declared) =
        checkProgram p (.initial declared)) ∧
    Resolves p declared (leftBy (checkProgram p (.initial declared))) ∧
    ∀ s, checkProgram p (.initial declared) = .ok () s →
      ∀ d ∈ p.declarations, VisitedOnce s d := by
  obtain ⟨hp, rfl⟩ := Scopes.ofProgram_eq_ok_iff.mp h
  change (∀ below n, _ → p.declarations.forM (visitElse below n) (.after p [] []) =
    checkProgram p (.after p [] [])) ∧ Resolves p _ (leftBy (checkProgram p (.after p [] []))) ∧
    ∀ s, checkProgram p (.after p [] []) = .ok () s → ∀ d ∈ p.declarations, VisitedOnce s d
  obtain ⟨_, visited, hnodup, hleft⟩ :=
    checkProgram_visits hp (fun _ => return ()) (Nat.le_refl _)
  refine ⟨fun below n hn => (checkProgram_visits hp below hn).1, ?_, fun s hs d hd => ?_⟩
  · rw [hleft]
    exact resolves_after hp hnodup
  · rw [hs] at hleft
    have hs' : s = .after p visited [] := hleft
    subst hs'
    exact visitedOnce_after hp hd hnodup (mem_of_checkProgram hp hd hs) []

/-- `opposite(x: bool) -> bool = not x`. -/
def negation : Declaration where
  number := 0
  name := "opposite"
  parameters := [⟨"x", .primitive default .bool, default⟩]
  returns := .primitive default .bool
  body := .inline (.unary default .not (.identifier default "x"))
  span := default

/-- `main() -> [bool] = opposite(true)`, whose body is no list. -/
def misdeclared : Declaration where
  number := 1
  name := "main"
  parameters := []
  returns := .list default (.primitive default .bool)
  body := .inline (.call default "opposite" [.boolean default true])
  span := default

/-- `last() -> bool = false`. -/
def unreached : Declaration where
  number := 2
  name := "last"
  parameters := []
  returns := .primitive default .bool
  body := .inline (.boolean default false)
  span := default

/-- A program whose check fails at its first function, after a visit of the second and before one
of the third. -/
def stoppingProgram : Program := ⟨[misdeclared, negation, unreached], default⟩

/-- The check fails. It has visited two functions, which keep their types, and not the third. -/
theorem checkProgram_resolves_stoppingProgram :
    ∃ declared, Scopes.ofProgram stoppingProgram = .ok declared ∧
      (∃ fault s, checkProgram stoppingProgram (.initial declared) = .error fault s ∧
        Resolves stoppingProgram declared s ∧
        s.visits "main" = 1 ∧ s.visits "opposite" = 1 ∧ s.visits "last" = 0) := by
  have hdeclared : Scopes.ofProgram stoppingProgram = .ok ⟨stoppingProgram.globals [], []⟩ :=
    Scopes.ofProgram_eq_ok_iff.mpr ⟨by decide, rfl⟩
  refine ⟨_, hdeclared, ?_⟩
  have hresolves := (checkProgram_resolves hdeclared).2.1
  obtain ⟨fault, s, hcheck, hmain, hopposite, hlast⟩ : ∃ fault s,
      checkProgram stoppingProgram (.initial ⟨stoppingProgram.globals [], []⟩) = .error fault s ∧
        s.visits "main" = 1 ∧ s.visits "opposite" = 1 ∧ s.visits "last" = 0 :=
    ⟨_, _, rfl, by decide, by decide, by decide⟩
  rw [hcheck] at hresolves
  exact ⟨fault, s, hcheck, hresolves, hmain, hopposite, hlast⟩

end Typing

end Piecewise
