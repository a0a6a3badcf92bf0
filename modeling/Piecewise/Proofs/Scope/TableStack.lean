import Piecewise.Proofs.Scope.Sessions
import Piecewise.Proofs.Scope.Table
import Piecewise.Scope.TableStack

/-!
# Stacks of tables in sessions

A stack of tables is seen as scopes by leaving the indexes out, and no session can tell the two
apart. Within the tables the index and the symbols say the same, whatever was done before: on failed
declarations, in frames that are left with scopes still on them, and after writing to the global
table from within a frame.
-/

namespace Piecewise

namespace Scopes

/-- All scopes, the innermost one first and the global one last. -/
def levels (s : Scopes) : List Scope := s.locals ++ [s.global]

theorem eq_of_levels {s t : Scopes} (h : s.levels = t.levels) : s = t := by
  obtain ⟨global, locals⟩ := s
  obtain ⟨global', locals'⟩ := t
  obtain ⟨rfl, hglobal⟩ := List.append_inj' h rfl
  cases hglobal
  rfl

theorem head?_levels (s : Scopes) : s.levels.head? = some s.current := by
  obtain ⟨global, locals⟩ := s
  cases locals <;> rfl

theorem levels_setCurrent (s : Scopes) (scope : Scope) :
    (s.setCurrent scope).levels = scope :: s.levels.tail := by
  obtain ⟨global, locals⟩ := s
  cases locals <;> rfl

end Scopes

namespace TableStack

def table (s : TableStack) : Target → Table
  | .innermost => s.current
  | .global => s.global

def setTable (s : TableStack) : Target → Table → TableStack
  | .innermost, t => s.setCurrent t
  | .global, t => s.setGlobal t

def keeping : Keeping TableStack (Array Table) where
  push := TableStack.push
  declare s
    | .innermost => s.declare
    | .global => s.declareGlobal
  get? s target name := (s.table target).get? name
  write s target name change :=
    s.setTable target ((s.table target).modify name change.apply change.name_apply)
  resolve := TableStack.resolve
  enterFrame := TableStack.enterFrame
  leaveFrame := TableStack.leaveFrame

theorem keeping_declare (s : TableStack) (target : Target) (symbol : Symbol) (place : Position) :
    keeping.declare s target symbol place =
      ((s.table target).declare symbol place).map (s.setTable target) := by
  cases target <;> rfl

section Lists

variable (s : TableStack) (t : Table)

/-- The local tables from the outermost to the innermost one. -/
def locals : List Table := s.tables.toList.tail

theorem toList_tables : s.tables.toList = s.global :: s.locals := by
  obtain ⟨⟨tables⟩, hsize⟩ := s
  cases tables with
  | nil => cases hsize
  | cons first rest => rfl

theorem getLast?_tables : s.tables.toList.getLast? = some s.current := by
  have hsize := s.size_pos
  rw [List.getLast?_eq_getElem?, Array.length_toList, Array.getElem?_toList, current,
    Array.getElem?_eq_getElem]

theorem toList_push : s.push.tables.toList = s.tables.toList ++ [.empty] := Array.toList_push

theorem toList_setGlobal : (s.setGlobal t).tables.toList = t :: s.locals := by
  rw [setGlobal, Array.toList_set, toList_tables, List.set_cons_zero]

theorem toList_setCurrent : (s.setCurrent t).tables.toList = s.tables.toList.dropLast ++ [t] := by
  have hsize := s.size_pos
  have hlast : s.tables.size - 1 + 1 = s.tables.toList.length := by
    rw [Array.length_toList]
    omega
  rw [setCurrent, Array.toList_set, List.set_eq_take_append_cons_drop, if_pos (by omega), hlast,
    List.drop_length, List.dropLast_eq_take, Array.length_toList]

theorem toList_enterFrame : s.enterFrame.2.tables.toList = [s.global, .empty] := by
  simp [enterFrame, toList_tables]

/-- What a frame hides are the local tables. -/
theorem toList_hidden : s.enterFrame.1.toList = s.locals := by
  rw [enterFrame, Array.toList_extract, List.extract_eq_take_drop, List.take_of_length_le,
    List.drop_one, locals]
  simp

theorem toList_leaveFrame (hidden : Array Table) :
    (s.leaveFrame hidden).tables.toList = s.global :: hidden.toList := by
  simp [leaveFrame, toList_tables]

theorem resolve?_eq (name : String) :
    s.resolve? name = s.tables.toList.reverse.findSome? fun t => t.get? name := by
  rw [resolve?, Array.findSomeRev?_eq_findSome?_reverse, ← Array.findSome?_toList,
    Array.toList_reverse]

end Lists

section View

/-- The scopes of tables, the innermost one first. -/
def scopesOf (tables : List Table) : List Scope := (tables.map Table.scope).reverse

/-- The scopes without their indexes. -/
def scopes (s : TableStack) : Scopes := ⟨s.global.scope, scopesOf s.locals⟩

theorem levels_scopes (s : TableStack) : s.scopes.levels = scopesOf s.tables.toList := by
  rw [toList_tables]
  simp [Scopes.levels, scopes, scopesOf]

theorem scope_table (s : TableStack) (target : Target) :
    (s.table target).scope = s.scopes.scope target := by
  cases target with
  | global => rfl
  | innermost =>
    have hhead := s.scopes.head?_levels
    rw [levels_scopes, scopesOf, List.head?_reverse, List.getLast?_map, getLast?_tables] at hhead
    exact Option.some.inj hhead

theorem scopes_setTable (s : TableStack) (target : Target) (t : Table) :
    (s.setTable target t).scopes = s.scopes.setScope target t.scope := by
  refine Scopes.eq_of_levels ?_
  cases target with
  | global =>
    rw [levels_scopes]
    change scopesOf (s.setGlobal t).tables.toList = _
    rw [toList_setGlobal]
    simp [scopesOf, Scopes.setScope, scopes, Scopes.levels]
  | innermost =>
    rw [levels_scopes]
    change scopesOf (s.setCurrent t).tables.toList = (s.scopes.setCurrent t.scope).levels
    rw [toList_setCurrent, Scopes.levels_setCurrent, levels_scopes]
    simp [scopesOf]

theorem represents :
    keeping.Represents Scopes.keeping scopes fun hidden => scopesOf hidden.toList where
  push s := by
    refine Scopes.eq_of_levels ?_
    change s.push.scopes.levels = .empty :: s.scopes.levels
    rw [levels_scopes, levels_scopes, toList_push]
    simp [scopesOf, Table.scope_empty]
  declare s target symbol place := by
    rw [keeping_declare, Scopes.keeping_declare, ← scope_table, ← Table.declare_scope]
    cases (s.table target).declare symbol place with
    | error fault => rfl
    | ok t => exact congrArg Except.ok (scopes_setTable s target t)
  get? s target name := by
    change (s.table target).get? name = (s.scopes.scope target).get? name
    rw [← scope_table, Table.get?_eq]
  write s target name change := by
    change (s.setTable target _).scopes = s.scopes.setScope target _
    rw [scopes_setTable, Table.modify_scope, scope_table]
  resolve s name place := by
    have hfound : s.resolve? name = s.scopes.resolve? name := by
      change _ = s.scopes.levels.findSome? _
      rw [resolve?_eq, levels_scopes, scopesOf, ← List.map_reverse, List.findSome?_map]
      exact congrArg (List.findSome? · _) (funext fun t => t.get?_eq name)
    change s.resolve name place = s.scopes.resolve name place
    cases hscopes : s.scopes.resolve? name with
    | none => simp only [resolve, Scopes.resolve, hfound, hscopes]
    | some symbol => simp only [resolve, Scopes.resolve, hfound, hscopes]
  enterFrame s := by
    change (scopesOf s.enterFrame.1.toList, s.enterFrame.2.scopes) = s.scopes.enterFrame
    rw [toList_hidden]
    refine Prod.ext rfl (Scopes.eq_of_levels ?_)
    rw [levels_scopes, toList_enterFrame]
    rfl
  leaveFrame s hidden := by
    refine Scopes.eq_of_levels ?_
    change (s.leaveFrame hidden).scopes.levels = scopesOf hidden.toList ++ [s.global.scope]
    rw [levels_scopes, toList_leaveFrame]
    simp [scopesOf]

end View

end TableStack

namespace Table

variable {t u : Table} {symbol : Symbol} {name : String}

/-- The index maps every name to the place of the one symbol that has it, and no other name. -/
def InStep (t : Table) : Prop :=
  ∀ name i, t.index[name]? = some i ↔ ∃ h : i < t.symbols.size, t.symbols[i].name = name

theorem inStep_iff : t.InStep ↔
    ∀ (name : String) (i : Nat),
      t.index[name]? = some i ↔ (t.symbols.map Symbol.name)[i]? = some name := by
  have hnames : ∀ (name : String) (i : Nat), (t.symbols.map Symbol.name)[i]? = some name ↔
      ∃ h : i < t.symbols.size, t.symbols[i].name = name := by
    intro name i
    rw [Array.getElem?_eq_some_iff]
    simp
  simp only [InStep, hnames]

theorem inStep_empty : empty.InStep := by
  intro name i
  simp [empty]

/-- A symbol that is declared comes last, and its name was the name of none. -/
theorem InStep.declare (h : t.InStep) {place : Position}
    (hok : t.declare symbol place = .ok u) : u.InStep := by
  rw [inStep_iff] at h ⊢
  unfold Table.declare at hok
  split at hok
  · cases hok
  · rename_i hnew
    cases hok
    intro name i
    rw [Std.HashMap.getElem?_insert, Array.map_push, Array.getElem?_push, Array.size_map]
    have hfree : ∀ j : Nat, (t.symbols.map Symbol.name)[j]? ≠ some symbol.name := by
      intro j hj
      rw [← h, Std.HashMap.getElem?_eq_none_of_contains_eq_false hnew] at hj
      cases hj
    by_cases hname : symbol.name = name
    · subst hname
      by_cases hi : i = t.symbols.size
      · simp [hi]
      · simpa [hi, Ne.symm hi] using hfree i
    · by_cases hi : i = t.symbols.size
      · simp [hname, hi, h]
      · simp [hname, hi, h]

theorem InStep.modify (h : t.InStep) (name : String) {change : Symbol → Symbol}
    (hname : ∀ symbol, (change symbol).name = symbol.name) :
    (t.modify name change hname).InStep := by
  rw [inStep_iff] at h ⊢
  unfold Table.modify
  split
  · exact h
  · rw [names_modify hname]
    exact h

/-- What a name stands for is the one symbol that has it. -/
theorem InStep.get?_eq_some_iff (h : t.InStep) :
    t.get? name = some symbol ↔ symbol ∈ t.symbols.toList ∧ symbol.name = name := by
  have hmem : symbol ∈ t.symbols.toList ∧ symbol.name = name ↔
      ∃ i, ∃ hi : i < t.symbols.size, t.symbols[i] = symbol ∧ t.index[name]? = some i := by
    rw [Array.mem_toList_iff, Array.mem_iff_getElem]
    constructor
    · rintro ⟨⟨i, hi, rfl⟩, hname⟩
      exact ⟨i, hi, rfl, (h name i).mpr ⟨hi, hname⟩⟩
    · rintro ⟨i, hi, rfl, hindex⟩
      exact ⟨⟨i, hi, rfl⟩, ((h name i).mp hindex).2⟩
  rw [hmem]
  unfold Table.get?
  split
  · rename_i hindex
    simp [hindex]
  · rename_i i hindex
    have hi := lt_size_of_index hindex
    simp [hindex, hi]

theorem declare_eq_error_iff {place : Position} {fault : Diagnostic} :
    t.declare symbol place = .error fault ↔ symbol.name ∈ t.scope.names ∧
      fault = (Fault.duplicateIdentifier symbol.name).at place := by
  unfold Table.declare
  split
  · rename_i htaken
    simp [← contains_index_iff, htaken, eq_comm]
  · rename_i hnew
    simp [← contains_index_iff, hnew]

end Table

namespace TableStack

abbrev TableSession := Session TableStack (Array Table)

/-- The indexes of all tables are in step, of those that frames hide too. -/
structure InStep (s : TableSession) : Prop where
  visible : ∀ t ∈ s.scopes.tables.toList, t.InStep
  hidden : ∀ tables ∈ s.suspended, ∀ t ∈ tables.toList, t.InStep

section Steps

variable {s : TableSession}

theorem mem_table (s : TableStack) (target : Target) : s.table target ∈ s.tables.toList := by
  cases target with
  | innermost => exact List.mem_of_getLast? s.getLast?_tables
  | global =>
    rw [toList_tables]
    exact List.mem_cons_self

theorem mem_of_mem_setTable {s : TableStack} {target : Target} {t u : Table}
    (h : u ∈ (s.setTable target t).tables.toList) : u = t ∨ u ∈ s.tables.toList := by
  cases target with
  | innermost =>
    change u ∈ (s.setCurrent t).tables.toList at h
    rw [toList_setCurrent, List.mem_append, List.mem_singleton] at h
    exact h.symm.imp_right fun hmem => List.dropLast_subset _ hmem
  | global =>
    change u ∈ (s.setGlobal t).tables.toList at h
    rw [toList_setGlobal, List.mem_cons] at h
    refine h.imp_right fun hmem => ?_
    rw [toList_tables]
    exact List.mem_cons_of_mem _ hmem

theorem InStep.setTable (h : InStep s) {target : Target} {t : Table} (ht : t.InStep) :
    InStep { s with scopes := s.scopes.setTable target t } where
  visible u hu := by
    rcases mem_of_mem_setTable hu with rfl | hmem
    · exact ht
    · exact h.visible u hmem
  hidden := h.hidden

theorem step_declare_of_ok {target : Target} {symbol : Symbol} {place : Position} {t : Table}
    (h : (s.scopes.table target).declare symbol place = .ok t) :
    keeping.step s (.declare target symbol place) =
      ({ s with scopes := s.scopes.setTable target t }, .done) := by
  simp only [Keeping.step, keeping_declare, h]
  rfl

theorem step_declare_of_error {target : Target} {symbol : Symbol} {place : Position}
    {fault : Diagnostic} (h : (s.scopes.table target).declare symbol place = .error fault) :
    keeping.step s (.declare target symbol place) = (s, .failed fault) := by
  simp only [Keeping.step, keeping_declare, h]
  rfl

/-- Every operation keeps all indexes in step. -/
theorem InStep.step (h : InStep s) (op : Operation) : InStep (keeping.step s op).1 := by
  cases op with
  | push =>
    refine ⟨fun t ht => ?_, h.hidden⟩
    change t ∈ s.scopes.push.tables.toList at ht
    rw [toList_push, List.mem_append, List.mem_singleton] at ht
    rcases ht with hmem | rfl
    · exact h.visible t hmem
    · exact Table.inStep_empty
  | declare target symbol place =>
    cases hdeclare : (s.scopes.table target).declare symbol place with
    | ok t =>
      rw [step_declare_of_ok hdeclare]
      exact h.setTable ((h.visible _ (mem_table s.scopes target)).declare hdeclare)
    | error fault =>
      rw [step_declare_of_error hdeclare]
      exact h
  | get target name =>
    rw [Keeping.step]
    split <;> exact h
  | resolve name place =>
    rw [Keeping.step]
    split <;> exact h
  | write target name change =>
    exact h.setTable ((h.visible _ (mem_table s.scopes target)).modify name change.name_apply)
  | enterFrame =>
    have htables := toList_tables s.scopes
    refine ⟨fun t ht => ?_, List.forall_mem_cons.mpr ⟨fun t ht => ?_, h.hidden⟩⟩
    · change t ∈ s.scopes.enterFrame.2.tables.toList at ht
      rw [toList_enterFrame] at ht
      rcases List.mem_pair.mp ht with rfl | rfl
      · exact h.visible _ (mem_table s.scopes .global)
      · exact Table.inStep_empty
    · change t ∈ s.scopes.enterFrame.1.toList at ht
      rw [toList_hidden] at ht
      exact h.visible t (List.mem_of_mem_tail ht)
  | leaveFrame =>
    cases hsuspended : s.suspended with
    | nil =>
      rw [Keeping.step, hsuspended]
      exact h
    | cons hidden rest =>
      have hall := h.hidden
      rw [hsuspended] at hall
      obtain ⟨hfirst, hrest⟩ := List.forall_mem_cons.mp hall
      rw [keeping.step_leaveFrame hsuspended]
      refine ⟨fun t ht => ?_, hrest⟩
      change t ∈ (s.scopes.leaveFrame hidden).tables.toList at ht
      rw [toList_leaveFrame] at ht
      rcases List.mem_cons.mp ht with rfl | hmem
      · exact h.visible _ (mem_table s.scopes .global)
      · exact hfirst t hmem

theorem InStep.after (h : InStep s) (ops : List Operation) : InStep (keeping.after s ops) := by
  induction ops generalizing s with
  | nil => exact h
  | cons op ops ih => exact ih (h.step op)

/-- A name is resolved to the one symbol that has it in the innermost table with such a symbol. -/
theorem InStep.resolve?_eq_some_iff (h : InStep s) {name : String} {symbol : Symbol} :
    s.scopes.resolve? name = some symbol ↔ ∃ outer t inner,
      s.scopes.tables.toList = outer ++ t :: inner ∧ symbol ∈ t.symbols.toList ∧
        symbol.name = name ∧ ∀ u ∈ inner, name ∉ u.scope.names := by
  have hfound : ∀ t ∈ s.scopes.tables.toList,
      t.get? name = some symbol ↔ symbol ∈ t.symbols.toList ∧ symbol.name = name :=
    fun t ht => (h.visible t ht).get?_eq_some_iff
  have hnone : ∀ u : Table, u.get? name = none ↔ name ∉ u.scope.names := by
    intro u
    rw [u.get?_eq, Scope.get?_eq_none_iff]
  rw [resolve?_eq, List.findSome?_eq_some_iff]
  constructor
  · rintro ⟨inner, t, outer, hsplit, hget, hinner⟩
    have hsplit' : s.scopes.tables.toList = outer.reverse ++ t :: inner.reverse := by
      simpa using congrArg List.reverse hsplit
    obtain ⟨hmem, hname⟩ := (hfound t (by simp [hsplit'])).mp hget
    exact ⟨outer.reverse, t, inner.reverse, hsplit', hmem, hname,
      fun u hu => (hnone u).mp (hinner u (List.mem_reverse.mp hu))⟩
  · rintro ⟨outer, t, inner, hsplit, hmem, hname, hinner⟩
    exact ⟨inner.reverse, t, outer.reverse, by simp [hsplit],
      (hfound t (by simp [hsplit])).mpr ⟨hmem, hname⟩,
      fun u hu => (hnone u).mpr (hinner u (List.mem_reverse.mp hu))⟩

/-- A declaration fails exactly where its table has the name, and then nothing is changed. -/
theorem step_declare_cases (s : TableSession) (target : Target) (symbol : Symbol)
    (place : Position) :
    (symbol.name ∈ (s.scopes.table target).scope.names ∧
        keeping.step s (.declare target symbol place) =
          (s, .failed ((Fault.duplicateIdentifier symbol.name).at place))) ∨
      (symbol.name ∉ (s.scopes.table target).scope.names ∧
        (keeping.step s (.declare target symbol place)).2 = .done) := by
  cases hdeclare : (s.scopes.table target).declare symbol place with
  | error fault =>
    obtain ⟨htaken, rfl⟩ := Table.declare_eq_error_iff.mp hdeclare
    exact Or.inl ⟨htaken, step_declare_of_error hdeclare⟩
  | ok t =>
    refine Or.inr ⟨fun htaken => ?_, by rw [step_declare_of_ok hdeclare]⟩
    rw [Table.declare_eq_error_iff.mpr ⟨htaken, rfl⟩] at hdeclare
    cases hdeclare

theorem step_resolve_found_iff {name : String} {place : Position} {symbol : Symbol} :
    (keeping.step s (.resolve name place)).2 = .found symbol ↔
      s.scopes.resolve? name = some symbol := by
  simp only [Keeping.step, keeping, resolve]
  cases s.scopes.resolve? name <;> simp

end Steps

def sessionAfter (ops : List Operation) : TableSession := keeping.after ⟨.empty, []⟩ ops

theorem inStep_sessionAfter (ops : List Operation) : InStep (sessionAfter ops) := by
  refine InStep.after ⟨fun t ht => ?_, List.forall_mem_nil _⟩ ops
  rw [List.mem_singleton.mp ht]
  exact Table.inStep_empty

/-- To every session, tables are ordered lists of symbols. After any operations all indexes are in
step, and everything was answered as by lists. A declaration fails exactly where its table has the
name, and then nothing is changed. A name is resolved to the one symbol that has it in the innermost
table with such a symbol. Leaving a frame brings back the local tables as they were when it was
entered, on the global table as it is by then. -/
theorem sessions_on_tables (ops : List Operation) :
    let s := sessionAfter ops
    InStep s ∧
    (s.map scopes (fun hidden => scopesOf hidden.toList) =
        Scopes.keeping.after ⟨.empty, []⟩ ops ∧
      keeping.replies ⟨.empty, []⟩ ops = Scopes.keeping.replies ⟨.empty, []⟩ ops) ∧
    (∀ target symbol place,
      (symbol.name ∈ (s.scopes.table target).scope.names ∧
        keeping.step s (.declare target symbol place) =
          (s, .failed ((Fault.duplicateIdentifier symbol.name).at place))) ∨
      (symbol.name ∉ (s.scopes.table target).scope.names ∧
        (keeping.step s (.declare target symbol place)).2 = .done)) ∧
    (∀ name place symbol, (keeping.step s (.resolve name place)).2 = .found symbol ↔
      ∃ outer t inner, s.scopes.tables.toList = outer ++ t :: inner ∧
        symbol ∈ t.symbols.toList ∧ symbol.name = name ∧ ∀ u ∈ inner, name ∉ u.scope.names) ∧
    ∀ inner, Operation.Enclosed inner →
      let left := sessionAfter (ops ++ (.enterFrame :: inner ++ [.leaveFrame]))
      left.scopes.tables.toList =
          (sessionAfter (ops ++ .enterFrame :: inner)).scopes.global :: s.scopes.locals ∧
        left.suspended = s.suspended := by
  intro s
  have hstep : InStep s := inStep_sessionAfter ops
  refine ⟨hstep, ⟨(represents.after _ ops).symm, (represents.replies _ ops).symm⟩,
    step_declare_cases s, fun name place symbol => ?_, ?_⟩
  · rw [step_resolve_found_iff]
    exact hstep.resolve?_eq_some_iff
  · intro inner hinner left
    have hwithin : sessionAfter (ops ++ .enterFrame :: inner) =
        keeping.after s (.enterFrame :: inner) := keeping.after_append _ ops _
    have hleft : left = _ :=
      (keeping.after_append _ ops _).trans (keeping.after_frame hinner s)
    rw [hwithin, hleft]
    refine ⟨?_, rfl⟩
    change (TableStack.leaveFrame _ _).tables.toList = _
    rw [toList_leaveFrame]
    exact congrArg _ (toList_hidden s.scopes)

section Nested

/-- A global symbol, and a local one of the caller. -/
def callerOperations : List Operation :=
  [.declare .innermost (.parameter "shared" .unresolved) default, .push,
    .declare .innermost (.parameter "caller" .real) default]

/-- A frame that writes to the global symbol and lasts while another frame is entered and left. -/
def calleeOperations : List Operation :=
  [.declare .innermost (.parameter "callee" .text) default, .enterFrame, .push,
    .declare .innermost (.parameter "shared" .text) default, .leaveFrame,
    .declare .global (.parameter "shared" .text) default, .write .global "shared" (.type .boolean)]

/-- After the frame the caller finds its own symbol and what was written to the global one, and the
symbol of the callee is gone. -/
theorem sessions_on_tables_nested :
    Operation.Enclosed calleeOperations ∧
      (sessionAfter (callerOperations ++
          (.enterFrame :: calleeOperations ++ [.leaveFrame]))).scopes.tables.toList =
        (sessionAfter (callerOperations ++ .enterFrame :: calleeOperations)).scopes.global ::
          (sessionAfter callerOperations).scopes.locals ∧
      (keeping.replies ⟨.empty, []⟩ (callerOperations ++
        (.enterFrame :: calleeOperations ++ [.leaveFrame]) ++ [.get .innermost "caller",
          .resolve "shared" default, .resolve "callee" default])).drop 11 =
        [.done, .found (.parameter "caller" .real), .found (.parameter "shared" .boolean),
          .failed ((Fault.unknownIdentifier "callee").at default)] := by
  have hframe : Operation.Enclosed
      [.push, .declare .innermost (.parameter "shared" .text) default] :=
    .plain rfl (.plain rfl .nil)
  have henclosed : Operation.Enclosed calleeOperations :=
    .plain rfl (.frame hframe (.plain rfl (.plain rfl .nil)))
  obtain ⟨_, _, _, _, hleave⟩ := sessions_on_tables callerOperations
  refine ⟨henclosed, (hleave _ henclosed).1, ?_⟩
  rw [(sessions_on_tables _).2.1.2]
  rfl

end Nested

end TableStack

end Piecewise
