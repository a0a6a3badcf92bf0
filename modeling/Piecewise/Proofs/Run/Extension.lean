import Piecewise.Proofs.Evaluation.SharedRuns
import Piecewise.Proofs.Typing.Abreast
import Piecewise.Proofs.Typing.Environments
import Piecewise.Proofs.Typing.Resolution

/-!
# A library before a program

A library that is accepted on its own can be put before any program that keeps away from its names
without a difference to the program: in all phases the outcome is that of the program alone. The
library needs no name that is not its own, so checking it first visits its own functions only and
then leaves the checker where the program needs nothing of what was visited.
-/

namespace Piecewise

namespace Program

/-- No function goes by one of the names, and no body uses one as a value or calls it. -/
def Avoids (p : Program) (names : List String) : Prop :=
  ∀ d ∈ p.declarations, d.name ∉ names ∧
    OnlyNames (fun name => name ∉ names) d.body.identifiers d.body.calls

instance (p : Program) (names : List String) : Decidable (p.Avoids names) :=
  inferInstanceAs (Decidable (∀ d ∈ p.declarations, _ ∧ _))

section Extension

variable {library p : Program}

theorem names_append (library p : Program) :
    (library.append p).names = library.names ++ p.names := List.map_append

theorem find?_append (library p : Program) (name : String) :
    (library.append p).find? name = (library.find? name).or (p.find? name) := List.find?_append

theorem find?_append_of_mem {name : String} (h : name ∈ library.names) :
    (library.append p).find? name = library.find? name := by
  rw [find?_append]
  cases hfound : library.find? name with
  | some d => rfl
  | none => exact absurd h (find?_eq_none_iff.mp hfound)

theorem find?_append_of_not_mem {name : String} (h : name ∉ library.names) :
    (library.append p).find? name = p.find? name := by
  rw [find?_append, find?_eq_none_iff.mpr h, Option.none_or]

/-- A program shares with its extension every name that is not the library's. -/
theorem Avoids.shared (hp : p.Avoids library.names) :
    Shared (library.append p) p fun name => name ∉ library.names := by
  refine ⟨fun name hname => find?_append_of_not_mem hname, fun d hd hname => ?_⟩
  rcases List.mem_append.mp hd with hlibrary | hprogram
  · exact absurd (List.mem_map_of_mem hlibrary) hname
  · exact (hp d hprogram).2.weaken fun _ => Or.inr

/-- A library that is in order on its own shares its names with the extension by a program. -/
theorem Avoids.shared_library (hp : p.Avoids library.names)
    (htyped : ∀ d ∈ library.declarations, Typing.WellTyped Typing.checkerRules library d) :
    Shared (library.append p) library fun name => name ∈ library.names := by
  refine ⟨fun name hname => find?_append_of_mem hname, fun d hd hname => ?_⟩
  rcases List.mem_append.mp hd with hlibrary | hprogram
  · exact (htyped d hlibrary).onlyNames
  · exact absurd hname (hp d hprogram).1

theorem nodup_names_append (hlibrary : library.names.Nodup) (hp : p.Avoids library.names)
    (hnodup : p.names.Nodup) : (library.append p).names.Nodup := by
  rw [names_append]
  refine List.Nodup.append hlibrary hnodup fun name hname hmem => ?_
  obtain ⟨d, hd, rfl⟩ := List.mem_map.mp hmem
  exact (hp d hd).1 hname

/-- What is wrong with the declaration of a program is what is wrong with that of its extension. -/
theorem ofProgram_append_error (hlibrary : library.names.Nodup) (hp : p.Avoids library.names)
    {fault : Diagnostic} (h : Scopes.ofProgram p = .error fault) :
    Scopes.ofProgram (library.append p) = .error fault := by
  have hdeclared := Scopes.ofProgram_eq_ok_iff.mpr ⟨hlibrary, rfl⟩
  rw [Scopes.ofProgram_eq_declareAll] at h hdeclared ⊢
  rw [append, List.map_append, Scope.declareAll_append]
  cases hall : Scope.empty.declareAll
      (library.declarations.map fun d => (.ofDeclaration d, d.span.start)) with
  | error fault => rw [hall] at hdeclared; cases hdeclared
  | ok scope =>
    rw [hall] at hdeclared
    cases hdeclared
    cases hrest : Scope.empty.declareAll
        (p.declarations.map fun d => (.ofDeclaration d, d.span.start)) with
    | ok scope => rw [hrest] at h; cases h
    | error fault' =>
      rw [hrest] at h
      cases h
      have hnames : ∀ entry ∈ p.declarations.map fun d => (Symbol.ofDeclaration d, d.span.start),
          entry.1.name ∈ Scope.empty.names ↔ entry.1.name ∈ (library.globals []).names := by
        intro entry hentry
        obtain ⟨d, hd, rfl⟩ := List.mem_map.mp hentry
        have hnone : (library.globals []).get? d.name = none := by
          rw [get?_globals, find?_eq_none_iff.mpr (hp d hd).1]
          rfl
        exact iff_of_false nofun (Scope.get?_eq_none_iff.mp hnone)
      have herror := Scope.declareAll_error_of_names hnames hrest
      change (Scope.declareAll _ _).map _ = _
      rw [herror]
      rfl

end Extension

end Program

namespace Typing

variable {library p : Program}

/-- Checked before a program, a library is visited as it is alone: all of it, and only it. -/
theorem visitAll_library {checked : Scopes} (hlibrary : library.Accepted checked)
    (hp : p.Avoids library.names) (hnames : (library.append p).names.Nodup) :
    ∃ visited, visited.Nodup ∧ (∀ name ∈ visited, name ∈ library.names) ∧
      visitAll library.declarations (.after (library.append p) [] []) =
        .ok () (.after (library.append p) visited []) := by
  obtain ⟨hdistinct, _, htyped⟩ := typed_of_accepted hlibrary
  have hcomparable : Comparable (library.append p) library (· ∈ library.names) [] [] :=
    ⟨hnames, hdistinct, hp.shared_library htyped, List.nodup_nil, fun _ _ => Iff.rfl⟩
  have hsame := visitAll_abreast hcomparable fun d hd =>
    ⟨List.mem_append_left _ hd, List.mem_map_of_mem hd⟩
  obtain ⟨u, hok⟩ := checkProgram_of_accepted hlibrary
  rw [checkProgram] at hok
  rw [hok] at hsame
  generalize visitAll library.declarations (.after (library.append p) [] []) = outcome at hsame ⊢
  cases hsame with
  | ok _ h =>
    obtain ⟨visited, hnodup, hshared, _, _, rfl, _⟩ := h
    exact ⟨visited ++ [], hnodup, by simpa using hshared, rfl⟩

theorem visitAll_append : ∀ (first second : List Declaration) (s : State),
    visitAll (first ++ second) s =
      EStateM.bind (visitAll first) (fun _ => visitAll second) s := by
  intro first second
  induction first with
  | nil => intro s; rfl
  | cons d rest ih =>
    intro s
    change EStateM.bind (visit d) (fun _ => visitAll (rest ++ second)) s =
      EStateM.bind (EStateM.bind (visit d) fun _ => visitAll rest) (fun _ => visitAll second) s
    unfold EStateM.bind
    cases visit d s with
    | ok _ t => exact ih t
    | error fault t => rfl

/-- Checking a program after a library gives what checking it alone gives: the library has been
visited, and the program asks for none of it. -/
theorem checkProgram_append {checked : Scopes} (hlibrary : library.Accepted checked)
    (hp : p.Avoids library.names) (hnodup : p.names.Nodup) :
    SameOutcome (fun _ _ => True)
      (checkProgram (library.append p) (.after (library.append p) [] []))
      (checkProgram p (.after p [] [])) := by
  have hnames := Program.nodup_names_append (typed_of_accepted hlibrary).1 hp hnodup
  obtain ⟨visited, hvisited, honly, hok⟩ := visitAll_library hlibrary hp hnames
  have hcomparable : Comparable (library.append p) p (· ∉ library.names) visited [] :=
    ⟨hnames, hnodup, hp.shared, hvisited, fun name hname =>
      iff_of_false (fun hmem => hname (honly name hmem)) nofun⟩
  have hsame := visitAll_abreast hcomparable fun d hd =>
    ⟨List.mem_append_right _ hd, (hp d hd).1⟩
  have hstep : checkProgram (library.append p) (.after (library.append p) [] []) =
      visitAll p.declarations (.after (library.append p) visited []) := by
    change visitAll (library.declarations ++ p.declarations) _ = _
    rw [visitAll_append, EStateM.bind, hok]
  rw [hstep]
  exact hsame.weaken fun _ _ _ => trivial

end Typing

namespace Program

variable {library p : Program}

/-- A program of different names is accepted exactly where its check succeeds. -/
theorem accepted_iff_check (hp : p.names.Nodup) :
    p.Accepted ⟨p.signatures, []⟩ ↔ (p.check ⟨p.globals [], []⟩).isOk = true := by
  rw [Typing.accepted_iff, Scopes.ofProgram_eq_ok_iff.mpr ⟨hp, rfl⟩]
  rfl

/-- After a library a program is rejected with the same diagnostic as alone, or accepted as it is
alone. -/
theorem check_append {checked : Scopes} (hlibrary : library.Accepted checked)
    (hp : p.Avoids library.names) :
    (∃ fault, (Scopes.ofProgram (library.append p)).bind (library.append p).check = .error fault ∧
      (Scopes.ofProgram p).bind p.check = .error fault) ∨
    (library.append p).Accepted ⟨(library.append p).signatures, []⟩ ∧
      p.Accepted ⟨p.signatures, []⟩ := by
  have hdistinct := (Typing.typed_of_accepted hlibrary).1
  cases hdeclared : Scopes.ofProgram p with
  | error fault =>
    refine Or.inl ⟨fault, ?_, rfl⟩
    rw [ofProgram_append_error hdistinct hp hdeclared]
    rfl
  | ok declared =>
    obtain ⟨hnodup, rfl⟩ := Scopes.ofProgram_eq_ok_iff.mp hdeclared
    have hnames := nodup_names_append hdistinct hp hnodup
    have hdeclared' := Scopes.ofProgram_eq_ok_iff.mpr ⟨hnames, rfl⟩
    have hsame := Typing.checkProgram_append hlibrary hp hnodup
    have hstart : ∀ q : Program, Typing.State.initial ⟨q.globals [], []⟩ = .after q [] [] :=
      fun _ => rfl
    rw [hdeclared', Except.bind, Except.bind, accepted_iff_check hnames, accepted_iff_check hnodup]
    unfold check
    rw [hstart, hstart]
    generalize Typing.checkProgram (library.append p) _ = outcome at hsame ⊢
    generalize Typing.checkProgram p _ = outcome' at hsame ⊢
    cases hsame with
    | ok _ _ => exact Or.inr ⟨rfl, rfl⟩
    | error fault _ => exact Or.inl ⟨fault, rfl, rfl⟩

end Program

namespace Evaluation

/-- The answer of a run, without what it has counted. -/
def answer : EStateM.Result Halt Stackless.Counters Value → Except Halt Value
  | .ok v _ => .ok v
  | .error halt _ => .error halt

theorem run_eq_answer (d : Declaration) (mode : ListEquality) (depth : Nat) (scopes : Scopes) :
    d.run mode depth scopes =
      answer (withoutScopes (runEntry mode depth d (.initial scopes))) := by
  unfold Declaration.run
  cases runEntry mode depth d (.initial scopes) <;> rfl

end Evaluation

namespace Program

variable {library p : Program}

/-- A program is declared, then checked, then searched for its entry. -/
theorem prepare_eq (p : Program) (c : Config) :
    p.prepare c = ((Scopes.ofProgram p).bind p.check).bind fun scopes =>
      (entry c.entry scopes).map fun d => (scopes, d) := by
  unfold prepare
  cases Scopes.ofProgram p with
  | error fault => rfl
  | ok declared =>
    change (p.check declared).bind _ = (p.check declared).bind _
    cases p.check declared with
    | error fault => rfl
    | ok checked => cases entry c.entry checked <;> rfl

theorem run_of_rejected {fault : Diagnostic}
    (h : (Scopes.ofProgram p).bind p.check = .error fault) (c : Config) (depth : Nat) :
    p.run c depth = .error (.fault fault) := by
  unfold run
  rw [prepare_eq, h]
  rfl

/-- The run of an accepted program starts from the function of the entry name. -/
theorem run_of_accepted (h : p.Accepted ⟨p.signatures, []⟩) (c : Config) (depth : Nat) :
    p.run c depth =
      match p.find? c.entry with
      | some d => d.run c.equality depth ⟨p.signatures, []⟩
      | none => .error (.fault ⟨.missingEntry c.entry, none⟩) := by
  obtain ⟨declared, hdeclared, hchecked⟩ := h
  unfold run
  rw [prepare_eq, hdeclared, Except.bind, hchecked, Except.bind, entry, get?_signatures]
  cases p.find? c.entry with
  | none => rfl
  | some d => rfl

/-- A library that is accepted on its own, put before a program that has nothing to do with its
names, does not change how the program ends. -/
theorem run_append_of_avoids {checked : Scopes} (hlibrary : library.Accepted checked)
    (hp : p.Avoids library.names) {c : Config} (hentry : c.entry ∉ library.names) (depth : Nat) :
    (library.append p).run c depth = p.run c depth := by
  rcases check_append hlibrary hp with ⟨fault, hfault, hfault'⟩ | ⟨haccepted, haccepted'⟩
  · rw [run_of_rejected hfault, run_of_rejected hfault']
  · rw [run_of_accepted haccepted, run_of_accepted haccepted', find?_append_of_not_mem hentry]
    cases hfound : p.find? c.entry with
    | none => rfl
    | some d =>
      obtain ⟨hd, hname⟩ := mem_of_find? hfound
      have hd' : d ∈ (library.append p).declarations := List.mem_append_right _ hd
      have hsame := Evaluation.runEntry_shared hp.shared haccepted haccepted' hd' hd
        (hname ▸ hentry) c.equality depth
      change d.run _ _ _ = d.run _ _ _
      rw [Evaluation.run_eq_answer, Evaluation.run_eq_answer, hsame]

end Program

/-- `last(first: string, second: string) -> string = second`. -/
def lastOfPair : Declaration where
  number := 2
  name := "last"
  parameters := [⟨"first", .primitive default .string, default⟩,
    ⟨"second", .primitive default .string, default⟩]
  returns := .primitive default .string
  body := .inline (.identifier default "second")
  span := default

/-- `main() -> string = last("a", "b")`. -/
def callsLast : Declaration where
  number := 3
  name := "main"
  parameters := []
  returns := .primitive default .string
  body := .inline (.call default "last" [.text default "a", .text default "b"])
  span := default

def oppositeLibrary : Program := ⟨[Typing.negation], default⟩

def lastProgram : Program := ⟨[callsLast, lastOfPair], default⟩

/-- With the library before it and alone, the program has the same value. -/
theorem run_append_of_avoids_lastProgram :
    oppositeLibrary.Accepted ⟨oppositeLibrary.signatures, []⟩ ∧
      lastProgram.Avoids oppositeLibrary.names ∧
      lastProgram.run Config.initial 2 = .ok (.text "b") ∧
      (oppositeLibrary.append lastProgram).run Config.initial 2 = .ok (.text "b") := by
  have hlibrary : oppositeLibrary.Accepted ⟨oppositeLibrary.signatures, []⟩ := by decide +kernel
  have hp : lastProgram.Avoids oppositeLibrary.names := by decide
  have hentry : Config.initial.entry ∉ oppositeLibrary.names := by decide
  have haccepted : lastProgram.Accepted ⟨lastProgram.signatures, []⟩ := by decide +kernel
  have halone : lastProgram.run Config.initial 2 = .ok (.text "b") := by
    rw [Program.run_of_accepted haccepted]
    rfl
  refine ⟨hlibrary, hp, halone, ?_⟩
  rw [Program.run_append_of_avoids hlibrary hp hentry 2]
  exact halone

end Piecewise
