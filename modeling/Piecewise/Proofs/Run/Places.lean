import Piecewise.Proofs.Evaluation.Places
import Piecewise.Proofs.Grammar.SpansProgram
import Piecewise.Proofs.Run.Sources
import Piecewise.Proofs.Typing.Places

/-!
# Where diagnostics point

A run of sources fails in one of four phases. A source that is no program is refused at one of its
tokens, at its end, or at the character at which cutting it into tokens stops. Every later fault
points at the start of a node, which is the start of a token of one of the sources and never the end
of it. Only a missing entry function has no place.
-/

namespace Piecewise

open Piecewise.Span

/-- A place where a token of one of the sources starts that is not the end of that source. -/
def StartsIn (sources : List Source) (p : Position) : Prop :=
  ∃ source ∈ sources, source.name = p.file ∧ source.Starts p

theorem Source.Starts.file {source : Source} {p : Position} (h : source.Starts p) :
    source.name = p.file := by
  obtain ⟨before, c, rest, _, rfl, _⟩ := character_of_starts h
  rfl

/-- Every other token starts before the end of its source. -/
theorem Source.Starts.lt_end {source : Source} {p : Position} (h : source.Starts p)
    {tokens : List Token} (htokens : source.tokens = .ok tokens) {last : Token}
    (hlast : last ∈ tokens) (hkind : last.kind = .eof) : p < last.span.start := by
  obtain ⟨tokens', htokens', t, ht, hother, rfl⟩ := h
  cases htokens.symm.trans htokens'
  have horder := inOrder_of_tokens htokens
  obtain ⟨text, place, rfl, _, hkinds⟩ := spells_of_tokens htokens
  have hend : last = .eofAt place := by
    rcases List.mem_append.mp hlast with hlast | hlast
    · exact absurd hkind (hkinds last hlast)
    · exact List.mem_singleton.mp hlast
  have htext : t ∈ text := by
    rcases List.mem_append.mp ht with ht | ht
    · exact ht
    · rw [List.mem_singleton.mp ht] at hother
      exact absurd rfl hother
  obtain ⟨_, _, hbefore⟩ := List.pairwise_append.mp horder
  obtain ⟨hwidth, hstop⟩ := hbefore t htext (.eofAt place) List.mem_cons_self
  exact hend ▸ lt_of_lt_of_le hwidth hstop

namespace Program

section Reading

variable {S : Position → Prop} {p : Program} {source : Source} {sources : List Source}

/-- The nodes of a program that is read from one of the sources start where a token of it does. -/
theorem ofSource_gives (hmem : source ∈ sources) :
    Gives (fun d => ofSource source = .error d) (ofSource source)
      fun p => ∀ d ∈ p.declarations, d.Nodes (StartsAt (StartsIn sources)) := by
  cases h : ofSource source with
  | error d => rfl
  | ok p =>
    obtain ⟨_, hplaced⟩ := placed_of_ofSource h
    exact fun d hd => (hplaced d hd).imply fun _ _ hnode =>
      ⟨source, hmem, hnode.start.file, hnode.start⟩

/-- Reading further sources adds their declarations, or fails at the first that is refused. -/
theorem extendWith_gives {rest : List Source} (hrest : ∀ source ∈ rest, source ∈ sources)
    (hp : ∀ d ∈ p.declarations, d.Nodes (StartsAt (StartsIn sources))) :
    Gives (fun d => ∃ source ∈ sources, ofSource source = .error d) (p.extendWith rest)
      fun q => ∀ d ∈ q.declarations, d.Nodes (StartsAt (StartsIn sources)) := by
  induction rest generalizing p with
  | nil => exact hp
  | cons source rest ih =>
    obtain ⟨hsource, hlater⟩ := List.forall_mem_cons.mp hrest
    have hread := ofSource_gives hsource
    rw [extendWith]
    cases hnext : ofSource source with
    | error d => exact ⟨source, hsource, hnext⟩
    | ok next =>
      refine ih hlater fun d hd => ?_
      rcases List.mem_append.mp hd with hd | hd
      · exact hp d hd
      · exact hread.of_ok hnext d hd

/-- The nodes of the program of several sources start where a token of one of them does. There is no
such program only where one of the sources is refused. -/
theorem ofSources_gives (sources : List Source) :
    Gives (fun d => ∃ source ∈ sources, ofSource source = .error d) (ofSources sources)
      fun p => ∀ d ∈ p.declarations, d.Nodes (StartsAt (StartsIn sources)) := by
  cases sources with
  | nil =>
    have hempty : (Program.mk [] default).SpelledBy "" := spelledBy_empty default
    obtain ⟨q, hq, hbare⟩ := ofSource_of_spelledBy { Source.prelude with text := "" } hempty
    have hnone : q.declarations = [] := List.map_eq_nil_iff.mp hbare
    rw [ofSources, hq]
    change ∀ d ∈ q.declarations, _
    rw [hnone]
    exact fun d hd => absurd hd List.not_mem_nil
  | cons source rest =>
    have hmem : source ∈ source :: rest := List.mem_cons_self
    have hrest : ∀ other ∈ rest, other ∈ source :: rest := fun _ => List.mem_cons_of_mem source
    have hread := ofSource_gives hmem
    rw [ofSources]
    cases hfirst : ofSource source with
    | error d => exact ⟨source, hmem, hfirst⟩
    | ok first =>
      have hextend := extendWith_gives hrest (hread.of_ok hfirst)
      exact hextend.map fun q hq => nodes_numberedFrom hq 0

end Reading

section Running

open Evaluation

variable {S : Position → Prop} {p : Program}

theorem check_gives {scopes : Scopes} (h : ∀ d ∈ p.declarations, d.Nodes (StartsAt S))
    (hs : scopes.Every (Symbol.HoldsAt S)) :
    Gives (·.PointsAt S) (p.check scopes) (·.Every (Symbol.HoldsAt S)) := by
  have hlocated := Typing.visitAll_located h (.initial scopes) hs
  unfold check Typing.checkProgram
  cases hrun : Typing.visitAll p.declarations (.initial scopes) with
  | ok _ t => exact (hlocated.of_ok hrun).1
  | error d t => exact hlocated.of_error hrun

theorem entry_gives (name : String) {scopes : Scopes} (hs : scopes.Every (Symbol.HoldsAt S)) :
    Gives (· = ⟨.missingEntry name, none⟩) (entry name scopes) (·.Nodes (StartsAt S)) := by
  unfold entry
  cases hentry : (scopes.global.get? name).bind Symbol.declaration? with
  | none => rfl
  | some d =>
    obtain ⟨symbol, hfound, hd⟩ := Option.bind_eq_some_iff.mp hentry
    exact hs.global.get? hfound d hd

/-- A program is ready to run, has a fault at a node, or lacks its entry function. -/
theorem prepare_gives (c : Config) (h : ∀ d ∈ p.declarations, d.Nodes (StartsAt S)) :
    Gives (fun d => d = ⟨.missingEntry c.entry, none⟩ ∨ d.PointsAt S) (p.prepare c)
      fun ready => ready.1.Every (Symbol.HoldsAt S) ∧ ready.2.Nodes (StartsAt S) := by
  refine ((Scopes.ofProgram_gives h).relax fun _ => Or.inr).bind fun declared hdeclared => ?_
  refine ((check_gives h hdeclared).relax fun _ => Or.inr).bind fun checked hchecked => ?_
  exact ((entry_gives c.entry hchecked).relax fun _ => Or.inl).bind fun d hd => ⟨hchecked, hd⟩

theorem declaration_run_gives (mode : ListEquality) (depth : Nat) {d : Declaration}
    {scopes : Scopes} (hd : d.Nodes (StartsAt S)) (hs : scopes.Every (Symbol.HoldsAt S)) :
    Gives (Halt.PointsAt S) (d.run mode depth scopes) fun _ => True := by
  have hlocated : Located S (runEntry mode depth d) fun _ => True := runEntry_located depth hd
  have hend := hlocated (.initial scopes) hs
  unfold Declaration.run
  cases hrun : runEntry mode depth d (.initial scopes) with
  | ok value t => trivial
  | error halt t => exact hend.of_error hrun

/-- A program that is run has a fault at a node, or lacks its entry function. -/
theorem run_gives (c : Config) (depth : Nat) (h : ∀ d ∈ p.declarations, d.Nodes (StartsAt S)) :
    Gives (fun halt => halt = .fault ⟨.missingEntry c.entry, none⟩ ∨ halt.PointsAt S)
      (p.run c depth) fun _ => True := by
  have hprepare : Gives (fun halt => halt = .fault ⟨.missingEntry c.entry, none⟩ ∨
      halt.PointsAt S) ((p.prepare c).mapError Halt.fault) fun ready =>
        ready.1.Every (Symbol.HoldsAt S) ∧ ready.2.Nodes (StartsAt S) :=
    ((prepare_gives c h).relax fun d hd => hd.imp_left (congrArg Halt.fault)).mapError
  refine hprepare.bind fun ready hready => ?_
  exact (declaration_run_gives c.equality depth hready.2 hready.1).relax fun _ => Or.inr

end Running

end Program

/-- Where a diagnostic of a run of sources points. -/
inductive Diagnostic.TracedTo (sources : List Source) (entry : String) (d : Diagnostic) : Prop
  /-- Nowhere, where nothing is wrong but that the entry function is missing. -/
  | missing (unplaced : d = ⟨.missingEntry entry, none⟩)
  /-- Into a source that is no program: at a token, at the end, or at the character with which no
  token starts. -/
  | reading {source : Source} {p : Position} (mem : source ∈ sources)
      (position : d.position = some p) (file : source.name = p.file)
      (refused : Program.ofSources sources = .error d) (refuses : source.Refuses d p)
  /-- At a token of a source, before its end, where all sources are programs. -/
  | running {source : Source} {p : Position} (mem : source ∈ sources)
      (position : d.position = some p) (file : source.name = p.file)
      (read : ∃ program, Program.ofSources sources = .ok program) (starts : source.Starts p)
      (inside : ∀ tokens, source.tokens = .ok tokens → ∀ t ∈ tokens, t.kind = .eof →
        p < t.span.start)

/-- Every diagnostic of a run points at a token of one of the sources, which is not the end of the
source once all sources have been read, or at the character with which no token starts; only a
missing entry function has no place. -/
theorem diagnostics_point_at_tokens {sources : List Source} {c : Config} {depth : Nat}
    {d : Diagnostic} (h : runSources sources c depth = .error (.fault d)) :
    d.TracedTo sources c.entry := by
  have hread := Program.ofSources_gives sources
  cases hprogram : Program.ofSources sources with
  | error e =>
    rw [runSources, hprogram] at h
    cases h
    obtain ⟨source, hmem, hrefused⟩ := hread.of_error hprogram
    obtain ⟨p, hp, hfile, hrefuses⟩ := refuses_of_ofSource hrefused
    exact .reading hmem hp hfile hprogram hrefuses
  | ok program =>
    rw [runSources, hprogram] at h
    have hrun := (Program.run_gives c depth (hread.of_ok hprogram)).of_error h
    rcases hrun with hmissing | ⟨p, hp, source, hmem, hfile, hstarts⟩
    · exact .missing (Evaluation.Halt.fault.inj hmissing)
    · refine .running hmem hp hfile ⟨program, hprogram⟩ hstarts ?_
      exact fun tokens htokens t ht hkind => hstarts.lt_end htokens ht hkind

section Undeclared

/-- Two sources, of which the second uses a name that neither declares. -/
def undeclaredSources : List Source :=
  [⟨"same", "fn same(a: bool) -> bool = a;"⟩, ⟨"main", "fn main() -> bool =\n  same((b));"⟩]

/-- The fault is said to be in the second source, behind both parentheses. -/
def undeclaredFault : Diagnostic := (Fault.unknownIdentifier "b").at ⟨2, 9, "main"⟩

theorem diagnostics_point_at_tokens_undeclared :
    runSources undeclaredSources .initial 1 = .error (.fault undeclaredFault) ∧
      undeclaredFault.TracedTo undeclaredSources "main" := by
  have hfault : (match runSources undeclaredSources .initial 1 with
      | .error (.fault d) => some d
      | _ => none) = some undeclaredFault := by decide +kernel
  have hrun : runSources undeclaredSources .initial 1 = .error (.fault undeclaredFault) := by
    split at hfault
    · rename_i d hd
      rw [hd, Option.some.inj hfault]
    · cases hfault
  exact ⟨hrun, diagnostics_point_at_tokens hrun⟩

end Undeclared

end Piecewise
