import Mathlib.Data.List.Induction
import Mathlib.Data.List.Nodup
import Piecewise.Proofs.Program.Names

/-!
# Looking names up

A scope gives every name at most one symbol, so looking a name up and declaring it are two sides
of one fact. From it: which programs can be declared, and what a name means in the global scope of
a program and in a frame on it.
-/

namespace Piecewise

namespace Scope

def names (s : Scope) : List String := s.symbols.map Symbol.name

theorem get?_eq_none_iff {s : Scope} {name : String} : s.get? name = none ↔ name ∉ s.names := by
  simp [get?, names]

/-- A declaration succeeds exactly where the name is new, and adds the symbol at the end. -/
theorem declare_eq_ok_iff {s t : Scope} {symbol : Symbol} {place : Position} :
    s.declare symbol place = .ok t ↔
      symbol.name ∉ s.names ∧ t = ⟨s.symbols ++ [symbol]⟩ := by
  rw [← get?_eq_none_iff]
  unfold declare
  cases h : s.get? symbol.name with
  | some taken => simp
  | none => simp [eq_comm]

theorem declare_of_mem {s : Scope} {symbol : Symbol} {place : Position}
    (h : symbol.name ∈ s.names) :
    s.declare symbol place = .error ((Fault.duplicateIdentifier symbol.name).at place) := by
  unfold declare
  cases hs : s.get? symbol.name with
  | some taken => rfl
  | none => exact absurd h (get?_eq_none_iff.mp hs)

theorem names_append (symbols : List Symbol) (symbol : Symbol) :
    (⟨symbols ++ [symbol]⟩ : Scope).names = (⟨symbols⟩ : Scope).names ++ [symbol.name] := by
  simp [names]

/-- Symbols declared one after the other, each at its place. -/
def declareAll (s : Scope) : List (Symbol × Position) → Except Diagnostic Scope
  | [] => .ok s
  | (symbol, place) :: rest => do (← s.declare symbol place).declareAll rest

theorem declareAll_cons (s : Scope) (symbol : Symbol) (place : Position)
    (rest : List (Symbol × Position)) :
    s.declareAll ((symbol, place) :: rest) =
      (s.declare symbol place).bind fun scope => scope.declareAll rest := rfl

theorem declareAll_append : ∀ (entries others : List (Symbol × Position)) (s : Scope),
    s.declareAll (entries ++ others) =
      (s.declareAll entries).bind fun scope => scope.declareAll others := by
  intro entries others
  induction entries with
  | nil => intro s; rfl
  | cons entry rest ih =>
    intro s
    obtain ⟨symbol, place⟩ := entry
    rw [List.cons_append, declareAll_cons, declareAll_cons]
    cases s.declare symbol place with
    | error fault => rfl
    | ok scope => exact ih scope

/-- The first name that is taken is reported. Only the names to be declared matter to that. -/
theorem declareAll_error_of_names {fault : Diagnostic} :
    ∀ {entries : List (Symbol × Position)} {s t : Scope},
    (∀ entry ∈ entries, entry.1.name ∈ s.names ↔ entry.1.name ∈ t.names) →
    s.declareAll entries = .error fault → t.declareAll entries = .error fault := by
  intro entries
  induction entries with
  | nil => intro s t _ h; cases h
  | cons entry rest ih =>
    intro s t hnames h
    obtain ⟨symbol, place⟩ := entry
    have hfirst := hnames (symbol, place) List.mem_cons_self
    rw [declareAll_cons] at h ⊢
    by_cases htaken : symbol.name ∈ s.names
    · rw [declare_of_mem htaken] at h
      rw [declare_of_mem (hfirst.mp htaken)]
      exact h
    · rw [declare_eq_ok_iff.mpr ⟨htaken, rfl⟩] at h
      rw [declare_eq_ok_iff.mpr ⟨fun hmem => htaken (hfirst.mpr hmem), rfl⟩]
      refine ih (fun other hmem => ?_) h
      rw [names_append, names_append, List.mem_append, List.mem_append,
        hnames other (List.mem_cons_of_mem _ hmem)]

/-- Symbols can be declared exactly where their names are new and differ from one another. -/
theorem declareAll_eq_ok_iff {t : Scope} : ∀ {entries : List (Symbol × Position)} {s : Scope},
    s.declareAll entries = .ok t ↔
      (entries.map fun entry => entry.1.name).Nodup ∧
        (∀ entry ∈ entries, entry.1.name ∉ s.names) ∧
        t = ⟨s.symbols ++ entries.map Prod.fst⟩ := by
  intro entries
  induction entries with
  | nil => intro s; simp [declareAll, eq_comm]
  | cons entry rest ih =>
    intro s
    obtain ⟨symbol, place⟩ := entry
    rw [declareAll_cons]
    by_cases hnew : symbol.name ∈ s.names
    · rw [declare_of_mem hnew]
      simp [Except.bind, hnew]
    · rw [declare_eq_ok_iff.mpr ⟨hnew, rfl⟩]
      change declareAll _ rest = .ok t ↔ _
      rw [ih, names_append]
      simp only [List.mem_append, List.map_cons, List.nodup_cons, List.mem_map, List.mem_cons,
        List.not_mem_nil, or_false, List.append_assoc, List.cons_append, List.nil_append]
      constructor
      · rintro ⟨hnodup, hapart, rfl⟩
        refine ⟨⟨?_, hnodup⟩, ?_, rfl⟩
        · rintro ⟨other, hmem, hsame⟩
          exact hapart other hmem (Or.inr hsame)
        · rintro other (rfl | hmem)
          · exact hnew
          · exact fun htaken => hapart other hmem (Or.inl htaken)
      · rintro ⟨⟨hfirst, hnodup⟩, hapart, rfl⟩
        refine ⟨hnodup, ?_, rfl⟩
        rintro other hmem (htaken | hsame)
        · exact hapart other (Or.inr hmem) htaken
        · exact hfirst ⟨other, hmem, hsame⟩

/-- A name is taken where it is by the scope, or by a symbol that was declared since. -/
theorem mem_names_of_declareAll {s t : Scope} {entries : List (Symbol × Position)}
    (h : s.declareAll entries = .ok t) (name : String) :
    name ∈ t.names ↔ name ∈ s.names ∨ name ∈ entries.map fun entry => entry.1.name := by
  obtain ⟨_, _, rfl⟩ := declareAll_eq_ok_iff.mp h
  simp [names]

/-- Symbols cannot be declared exactly where some name is taken, by the scope or by a symbol before
it. The first such symbol is reported, at its place. -/
theorem declareAll_eq_error_iff {fault : Diagnostic} {entries : List (Symbol × Position)}
    {s : Scope} : s.declareAll entries = .error fault ↔
      ∃ before symbol place after, entries = before ++ (symbol, place) :: after ∧
        (before.map fun entry => entry.1.name).Nodup ∧
        (∀ entry ∈ before, entry.1.name ∉ s.names) ∧
        (symbol.name ∈ s.names ∨ symbol.name ∈ before.map fun entry => entry.1.name) ∧
        fault = (Fault.duplicateIdentifier symbol.name).at place := by
  constructor
  · intro h
    induction entries using List.reverseRecOn with
    | nil => cases h
    | append_singleton before last ih =>
      rw [declareAll_append] at h
      cases hbefore : s.declareAll before with
      | error earlier =>
        rw [hbefore] at h
        cases h
        obtain ⟨first, symbol, place, between, rfl, hrest⟩ := ih hbefore
        exact ⟨first, symbol, place, between ++ [last], by simp, hrest⟩
      | ok t =>
        obtain ⟨symbol, place⟩ := last
        rw [hbefore] at h
        change (t.declare symbol place).bind _ = _ at h
        by_cases htaken : symbol.name ∈ t.names
        · rw [declare_of_mem htaken] at h
          cases h
          obtain ⟨hnodup, hapart, _⟩ := declareAll_eq_ok_iff.mp hbefore
          have hrepeats := (mem_names_of_declareAll hbefore symbol.name).mp htaken
          exact ⟨before, symbol, place, [], rfl, hnodup, hapart, hrepeats, rfl⟩
        · rw [declare_eq_ok_iff.mpr ⟨htaken, rfl⟩] at h
          cases h
  · rintro ⟨before, symbol, place, after, rfl, hnodup, hapart, hrepeats, rfl⟩
    have hbefore := declareAll_eq_ok_iff.mpr ⟨hnodup, hapart, rfl⟩
    rw [declareAll_append, hbefore]
    change declareAll _ ((symbol, place) :: after) = _
    rw [declareAll_cons, declare_of_mem ((mem_names_of_declareAll hbefore _).mpr hrepeats)]
    rfl

/-- A scope without symbols takes every list of symbols with different names. -/
theorem declareAll_empty_eq_ok_iff {entries : List (Symbol × Position)} {t : Scope} :
    empty.declareAll entries = .ok t ↔
      (entries.map fun entry => entry.1.name).Nodup ∧ t = ⟨entries.map Prod.fst⟩ := by
  rw [declareAll_eq_ok_iff]
  simp [empty, names]

end Scope

namespace Scopes

/-- A name in a frame: a symbol of the frame, or else a global one. -/
theorem resolve?_frame (global frame : Scope) (name : String) :
    (⟨global, [frame]⟩ : Scopes).resolve? name =
      (frame.get? name).or (global.get? name) := by
  simp only [resolve?, List.cons_append, List.nil_append, List.findSome?_cons, List.findSome?_nil]
  cases frame.get? name <;> cases global.get? name <;> rfl

theorem declare_frame (global frame : Scope) (outer : List Scope) (symbol : Symbol)
    (place : Position) :
    (⟨global, frame :: outer⟩ : Scopes).declare symbol place =
      (frame.declare symbol place).map fun scope => ⟨global, scope :: outer⟩ := rfl

private theorem foldlM_declareGlobal : ∀ (ds : List Declaration) (global : Scope),
    ds.foldlM (fun scopes d => scopes.declareGlobal (.ofDeclaration d) d.span.start)
        (⟨global, []⟩ : Scopes) =
      (global.declareAll (ds.map fun d => (.ofDeclaration d, d.span.start))).map (⟨·, []⟩) := by
  intro ds
  induction ds with
  | nil => intro global; rfl
  | cons d ds ih =>
    intro global
    rw [List.foldlM_cons, List.map_cons, Scope.declareAll_cons, declareGlobal]
    cases global.declare (.ofDeclaration d) d.span.start with
    | error fault => rfl
    | ok scope => exact ih scope

/-- Declaring a program is declaring the symbols of its functions where there are none yet. -/
theorem ofProgram_eq_declareAll (p : Program) :
    ofProgram p = (Scope.empty.declareAll
      (p.declarations.map fun d => (.ofDeclaration d, d.span.start))).map (⟨·, []⟩) :=
  foldlM_declareGlobal p.declarations .empty

/-- A program can be declared exactly where its functions have different names. Then no function
has its type yet. -/
theorem ofProgram_eq_ok_iff {p : Program} {s : Scopes} :
    ofProgram p = .ok s ↔ p.names.Nodup ∧ s = ⟨p.globals [], []⟩ := by
  have hentries : (p.declarations.map fun d => (Symbol.ofDeclaration d, d.span.start)).map
      (fun entry => entry.1.name) = p.names := by
    simp [Program.names, Symbol.ofDeclaration]
  have hsymbols : (p.declarations.map fun d => (Symbol.ofDeclaration d, d.span.start)).map
      Prod.fst = (p.globals []).symbols := by
    simp [Program.globals]
  unfold ofProgram
  change List.foldlM _ (⟨.empty, []⟩ : Scopes) _ = _ ↔ _
  rw [foldlM_declareGlobal]
  constructor
  · intro h
    cases hall : Scope.empty.declareAll _ with
    | error fault => rw [hall] at h; cases h
    | ok scope =>
      rw [hall] at h
      obtain ⟨hnodup, rfl⟩ := Scope.declareAll_empty_eq_ok_iff.mp hall
      rw [hentries] at hnodup
      rw [hsymbols] at h
      cases h
      exact ⟨hnodup, rfl⟩
  · rintro ⟨hnodup, rfl⟩
    rw [← hentries] at hnodup
    rw [Scope.declareAll_empty_eq_ok_iff.mpr ⟨hnodup, rfl⟩, hsymbols]
    rfl

/-- A program cannot be declared exactly where two of its functions have one name. The earliest
function whose name stands before it is reported, where it starts. -/
theorem ofProgram_eq_error_iff {p : Program} {fault : Diagnostic} :
    ofProgram p = .error fault ↔ ∃ before d after, p.declarations = before ++ d :: after ∧
      (before.map Declaration.name).Nodup ∧ d.name ∈ before.map Declaration.name ∧
      fault = (Fault.duplicateIdentifier d.name).at d.span.start := by
  have hmap : ofProgram p = .error fault ↔ Scope.empty.declareAll
      (p.declarations.map fun d => (.ofDeclaration d, d.span.start)) = .error fault := by
    rw [ofProgram_eq_declareAll]
    cases Scope.empty.declareAll _ <;> simp [Except.map]
  have hnames : ∀ ds : List Declaration,
      (ds.map fun d => (Symbol.ofDeclaration d, d.span.start)).map (fun entry => entry.1.name) =
        ds.map Declaration.name := by
    intro ds
    rw [List.map_map]
    rfl
  rw [hmap, Scope.declareAll_eq_error_iff]
  constructor
  · rintro ⟨entries, symbol, place, others, hsplit, hnodup, _, hrepeats, rfl⟩
    obtain ⟨before, rest, hdeclarations, rfl, hrest⟩ := List.map_eq_append_iff.mp hsplit
    obtain ⟨d, after, rfl, hd, rfl⟩ := List.map_eq_cons_iff.mp hrest
    cases hd
    rw [hnames] at hnodup hrepeats
    exact ⟨before, d, after, hdeclarations, hnodup, hrepeats.resolve_left List.not_mem_nil, rfl⟩
  · rintro ⟨before, d, after, hdeclarations, hnodup, hrepeats, rfl⟩
    refine ⟨before.map fun d => (.ofDeclaration d, d.span.start), .ofDeclaration d, d.span.start,
      after.map fun d => (.ofDeclaration d, d.span.start), ?_, ?_, fun _ _ => List.not_mem_nil,
      Or.inr ?_, rfl⟩
    · rw [hdeclarations, List.map_append, List.map_cons]
    · rwa [hnames]
    · rwa [hnames]

end Scopes

namespace Program

/-- The global symbol of a name is that of the first function of the name. -/
theorem get?_globals (p : Program) (resolved : List String) (name : String) :
    (p.globals resolved).get? name =
      (p.find? name).map fun d =>
        if name ∈ resolved then .ofSignature d else .ofDeclaration d := by
  unfold globals Scope.get? find?
  rw [List.find?_map]
  have hname : (fun symbol : Symbol => decide (symbol.name = name)) ∘
      (fun d : Declaration => if d.name ∈ resolved then Symbol.ofSignature d
        else .ofDeclaration d) = fun d => decide (d.name = name) := by
    funext d
    simp only [Function.comp]
    split <;> rfl
  rw [hname]
  cases h : p.declarations.find? fun d => decide (d.name = name) with
  | none => rfl
  | some d =>
    have hd : d.name = name := by simpa using List.find?_some h
    simp [hd]

/-- Where every function has its type, the symbol of a name is that of the first function of it. -/
theorem get?_signatures (p : Program) (name : String) :
    p.signatures.get? name = (p.find? name).map .ofSignature := by
  unfold signatures Scope.get? find?
  rw [List.find?_map]
  rfl

theorem mem_of_find? {p : Program} {name : String} {d : Declaration}
    (h : p.find? name = some d) : d ∈ p.declarations ∧ d.name = name :=
  ⟨List.mem_of_find?_eq_some h, by simpa using List.find?_some h⟩

theorem find?_eq_none_iff {p : Program} {name : String} :
    p.find? name = none ↔ name ∉ p.names := by
  simp [find?, names]

/-- Where names differ, every function is the first of its name. -/
theorem find?_of_mem {p : Program} (hp : p.names.Nodup) {d : Declaration}
    (hd : d ∈ p.declarations) : p.find? d.name = some d := by
  obtain ⟨e, he⟩ : ∃ e, p.find? d.name = some e := by
    cases h : p.find? d.name with
    | some e => exact ⟨e, rfl⟩
    | none => exact absurd (List.mem_map_of_mem hd) (find?_eq_none_iff.mp h)
  obtain ⟨hmem, hname⟩ := mem_of_find? he
  rw [he, List.inj_on_of_nodup_map hp hmem hd hname]

/-- A change of the symbol of one name, in symbols whose names differ. -/
private theorem modifyIn_map {α : Type} (name : α → String) {f g : α → Symbol}
    {change : Symbol → Symbol} (hname : ∀ a, (f a).name = name a) {a : α} :
    ∀ {as : List α}, (as.map name).Nodup → a ∈ as → change (f a) = g a →
      (∀ b ∈ as, name b ≠ name a → f b = g b) →
      Scope.modifyIn (name a) change (as.map f) = as.map g := by
  intro as
  induction as with
  | nil => intro _ ha; cases ha
  | cons b as ih =>
    intro hnodup ha hchange hrest
    rw [List.map_cons, List.nodup_cons] at hnodup
    rw [List.map_cons, List.map_cons, Scope.modifyIn, hname]
    by_cases hsame : name b = name a
    · have hba : a = b := by
        rcases List.mem_cons.mp ha with rfl | hmem
        · rfl
        · exact absurd (hsame ▸ List.mem_map_of_mem hmem) hnodup.1
      subst hba
      rw [if_pos rfl, hchange]
      refine congrArg (g a :: ·) (List.map_congr_left fun c hc => ?_)
      refine hrest c (List.mem_cons_of_mem _ hc) fun hc' => hnodup.1 ?_
      exact hc' ▸ List.mem_map_of_mem hc
    · rw [if_neg hsame, hrest b List.mem_cons_self hsame]
      have hmem : a ∈ as := by
        rcases List.mem_cons.mp ha with rfl | hmem
        · exact absurd rfl hsame
        · exact hmem
      rw [ih hnodup.2 hmem hchange fun c hc => hrest c (List.mem_cons_of_mem _ hc)]

/-- The type of one more function is written down. -/
theorem modify_globals {p : Program} (hp : p.names.Nodup) {d : Declaration}
    (hd : d ∈ p.declarations) (resolved : List String) :
    ((p.globals resolved).modify d.name fun symbol => { symbol with type := d.signature }) =
      p.globals (d.name :: resolved) := by
  refine congrArg Scope.mk (modifyIn_map Declaration.name ?_ hp hd ?_ ?_)
  · intro e
    split <;> rfl
  · rw [if_pos List.mem_cons_self]
    split <;> rfl
  · intro e _ hne
    simp [hne]

/-- How many functions of a program have no type yet. -/
def unresolved (p : Program) (resolved : List String) : Nat :=
  p.declarations.countP fun d => d.name ∉ resolved

theorem pending_globals (p : Program) (resolved : List String) (locals : List Scope) :
    (⟨p.globals resolved, locals⟩ : Scopes).pending = p.unresolved resolved := by
  unfold Scopes.pending globals unresolved
  rw [List.countP_map]
  refine List.countP_congr fun d _ => ?_
  by_cases h : d.name ∈ resolved
  · simp [h, Symbol.ofSignature, Declaration.signature, Ty.isResolved]
  · simp [h, Symbol.ofDeclaration, Ty.isResolved]

theorem unresolved_le {p : Program} {first second : List String} (h : first ⊆ second) :
    p.unresolved second ≤ p.unresolved first := by
  refine List.countP_mono_left fun d _ hd => ?_
  simp only [decide_eq_true_eq] at hd ⊢
  exact fun hmem => hd (h hmem)

/-- A function that gets its type is one less without. -/
theorem unresolved_cons_lt {p : Program} {d : Declaration} (hd : d ∈ p.declarations)
    {resolved : List String} (hnew : d.name ∉ resolved) :
    p.unresolved (d.name :: resolved) < p.unresolved resolved := by
  unfold unresolved
  obtain ⟨before, after, hsplit⟩ := List.append_of_mem hd
  have hle : ∀ ds : List Declaration,
      ds.countP (fun e => e.name ∉ d.name :: resolved) ≤ ds.countP fun e => e.name ∉ resolved := by
    intro ds
    refine List.countP_mono_left fun e _ he => ?_
    simp only [decide_eq_true_eq] at he ⊢
    exact fun hmem => he (List.mem_cons_of_mem _ hmem)
  have hbefore := hle before
  have hafter := hle after
  rw [hsplit, List.countP_append, List.countP_append, List.countP_cons, List.countP_cons]
  simp only [List.mem_cons, true_or, not_true_eq_false, decide_false, Bool.false_eq_true,
    if_false, hnew, not_false_eq_true, decide_true, if_true] at hbefore hafter ⊢
  omega

end Program

end Piecewise
