import Piecewise.Evaluation.Program
import Piecewise.Proofs.Typing.Resolution
import Piecewise.Run.Program

/-!
# Runs do not look at the types of functions

The checker leaves one thing behind for a run to find: the types of functions. With these types
erased from its scopes a run takes the same steps. An unbound parameter that is passed on becomes
its type, but that type is written where the parameter is declared, and is never erased.
-/

namespace Piecewise

namespace Symbol

/-- The symbol without what the checker writes down: a function has no type. -/
def erased (s : Symbol) : Symbol :=
  match s.role with
  | .parameter => s
  | .function _ => s.untyped

variable (s : Symbol)

theorem name_erased : s.erased.name = s.name := by
  unfold erased
  split <;> rfl

theorem value_erased : s.erased.value = s.value := by
  unfold erased
  split <;> rfl

theorem declaration?_erased : s.erased.declaration? = s.declaration? := by
  unfold erased
  split <;> rfl

theorem isUnbound_erased : s.erased.isUnbound = s.isUnbound := by
  unfold isUnbound
  rw [value_erased, declaration?_erased]

theorem bind_erased (value : Value) : (s.bind value).erased = s.erased.bind value := by
  obtain ⟨name, type, role, bound⟩ := s
  unfold bind
  cases role <;> split <;> rfl

/-- What has nothing to evaluate to is a parameter, which keeps its type. -/
theorem erased_of_isUnbound {s : Symbol} (h : s.isUnbound = true) : s.erased = s := by
  obtain ⟨name, type, role, value⟩ := s
  cases role with
  | parameter => rfl
  | function d => simp [isUnbound, declaration?] at h

end Symbol

namespace Scope

def erased (s : Scope) : Scope := ⟨s.symbols.map Symbol.erased⟩

theorem get?_erased (s : Scope) (name : String) :
    s.erased.get? name = (s.get? name).map Symbol.erased := by
  unfold erased get?
  rw [List.find?_map]
  have hname : (fun symbol : Symbol => decide (symbol.name = name)) ∘ Symbol.erased =
      fun symbol => decide (symbol.name = name) := by
    funext symbol
    simp [Symbol.name_erased]
  rw [hname]

theorem declare_erased (s : Scope) (symbol : Symbol) (place : Position) :
    s.erased.declare symbol.erased place = (s.declare symbol place).map erased := by
  unfold declare
  rw [get?_erased, Symbol.name_erased]
  cases s.get? symbol.name with
  | some other => rfl
  | none => simp [Except.map, erased]

theorem bind_erased (s : Scope) (values : List Value) :
    (s.bind values).erased = s.erased.bind values := by
  have hsymbols : ∀ symbols : List Symbol, (bindIn symbols values).map Symbol.erased =
      bindIn (symbols.map Symbol.erased) values := by
    induction values with
    | nil =>
      intro symbols
      rw [bindIn_nil, bindIn_nil]
    | cons value values ih =>
      intro symbols
      cases symbols with
      | nil => rfl
      | cons symbol rest =>
        rw [bindIn, List.map_cons, List.map_cons, bindIn, ih, Symbol.bind_erased]
  exact congrArg Scope.mk (hsymbols s.symbols)

end Scope

namespace Scopes

def erased (s : Scopes) : Scopes := ⟨s.global.erased, s.locals.map Scope.erased⟩

theorem resolve?_erased (s : Scopes) (name : String) :
    s.erased.resolve? name = (s.resolve? name).map Symbol.erased := by
  have hscopes : ∀ scopes : List Scope,
      (scopes.map Scope.erased).findSome? (fun scope => scope.get? name) =
        (scopes.findSome? fun scope => scope.get? name).map Symbol.erased := by
    intro scopes
    induction scopes with
    | nil => rfl
    | cons scope rest ih =>
      rw [List.map_cons, List.findSome?_cons, List.findSome?_cons, Scope.get?_erased, ih]
      cases scope.get? name <;> rfl
  show (s.locals.map Scope.erased ++ [s.global.erased]).findSome? _ = _
  rw [← List.map_singleton, ← List.map_append, hscopes]
  rfl

theorem resolve_erased (s : Scopes) (name : String) (place : Position) :
    s.erased.resolve name place = (s.resolve name place).map Symbol.erased := by
  unfold resolve
  rw [resolve?_erased]
  cases s.resolve? name <;> rfl

theorem current_erased (s : Scopes) : s.erased.current = s.current.erased := by
  obtain ⟨global, locals⟩ := s
  cases locals <;> rfl

theorem setCurrent_erased (s : Scopes) (scope : Scope) :
    (s.setCurrent scope).erased = s.erased.setCurrent scope.erased := by
  obtain ⟨global, locals⟩ := s
  cases locals <;> rfl

theorem declare_erased (s : Scopes) (symbol : Symbol) (place : Position) :
    s.erased.declare symbol.erased place = (s.declare symbol place).map erased := by
  obtain ⟨global, locals⟩ := s
  cases locals with
  | nil =>
    show (global.erased.declare symbol.erased place).map _ = _
    rw [Scope.declare_erased]
    show _ = ((global.declare symbol place).map _).map erased
    cases global.declare symbol place <;> rfl
  | cons frame outer =>
    show (frame.erased.declare symbol.erased place).map _ = _
    rw [Scope.declare_erased]
    show _ = ((frame.declare symbol place).map _).map erased
    cases frame.declare symbol place <;> rfl

end Scopes

namespace Evaluation

variable {α β : Type}

def State.erased (s : State) : State := { s with scopes := s.scopes.erased }

/-- An outcome of which the scopes that are left are erased. The answer and what was counted on
the way stay. -/
def erasedOutcome : EStateM.Result Halt State α → EStateM.Result Halt State α
  | .ok a s => .ok a s.erased
  | .error halt s => .error halt s.erased

/-- A step that does not look at the types of functions. -/
def Oblivious (step : Eval α) : Prop := ∀ s : State, step s.erased = erasedOutcome (step s)

namespace Oblivious

/-- Where two states differ in the types of functions only, so do the outcomes. -/
theorem outcomes {step : Eval α} (h : Oblivious step) {s t : State} (hst : s.erased = t.erased) :
    erasedOutcome (step s) = erasedOutcome (step t) := by
  rw [← h s, hst, h t]

theorem pure (a : α) : Oblivious (Pure.pure a : Eval α) := fun _ => rfl

theorem throw (halt : Halt) : Oblivious (MonadExcept.throw halt : Eval α) := fun _ => rfl

theorem fail (fault : Fault) (place : Position) :
    Oblivious (Evaluation.fail fault place : Eval α) :=
  throw _

theorem bind {step : Eval α} {next : α → Eval β} (h : Oblivious step)
    (k : ∀ a, Oblivious (next a)) : Oblivious (step >>= next) := by
  intro s
  show EStateM.bind step next s.erased = erasedOutcome (EStateM.bind step next s)
  unfold EStateM.bind
  rw [h s]
  cases step s with
  | ok a t => exact k a t
  | error halt t => rfl

theorem lift (outcome : Except Diagnostic α) : Oblivious (Evaluation.lift outcome) := by
  cases outcome with
  | ok a => exact pure a
  | error d => exact throw _

/-- A step that goes on with a symbol may use all of it but the type of a function. -/
theorem resolve_bind {name : String} {place : Position} {next : Symbol → Eval β}
    (h : ∀ symbol, next symbol.erased = next symbol) (k : ∀ symbol, Oblivious (next symbol)) :
    Oblivious (resolve name place >>= next) := by
  intro s
  show EStateM.bind (Evaluation.lift (s.scopes.erased.resolve name place)) next s.erased =
    erasedOutcome (EStateM.bind (Evaluation.lift (s.scopes.resolve name place)) next s)
  rw [Scopes.resolve_erased]
  cases s.scopes.resolve name place with
  | error d => rfl
  | ok symbol =>
    show next symbol.erased s.erased = erasedOutcome (next symbol s)
    rw [h, k symbol s]

theorem newList (elements : List Value) : Oblivious (Evaluation.newList elements) := fun _ => rfl

theorem inFrame {step : Eval α} (h : Oblivious step) : Oblivious (Evaluation.inFrame step) := by
  intro s
  have hstep := h { s with scopes := s.scopes.enterFrame.2 }
  unfold Evaluation.inFrame
  show (match step (State.erased { s with scopes := s.scopes.enterFrame.2 }) with
    | .ok a t => EStateM.Result.ok a { t with scopes := t.scopes.leaveFrame _ }
    | .error halt t => .error halt { t with scopes := t.scopes.leaveFrame _ }) = _
  rw [hstep]
  show _ = erasedOutcome (match step { s with scopes := s.scopes.enterFrame.2 } with
    | .ok a t => EStateM.Result.ok a { t with scopes := t.scopes.leaveFrame s.scopes.locals }
    | .error halt t => .error halt { t with scopes := t.scopes.leaveFrame s.scopes.locals })
  cases step { s with scopes := s.scopes.enterFrame.2 } <;> rfl

end Oblivious

section Expressions

variable {mode : ListEquality} {call : Call}

theorem asBoolean_oblivious {e : Expr} {value : Eval Value} (h : Oblivious value) :
    Oblivious (asBoolean e value) := by
  refine .bind h fun v => ?_
  cases v with
  | boolean b => exact .pure b
  | _ => exact .fail _ _

theorem asReal_oblivious {e : Expr} {value : Eval Value} (h : Oblivious value) :
    Oblivious (asReal e value) := by
  refine .bind h fun v => ?_
  cases v with
  | real x => exact .pure x
  | _ => exact .fail _ _

theorem asList_oblivious {e : Expr} {value : Eval Value} (h : Oblivious value) :
    Oblivious (asList e value) := by
  refine .bind h fun v => ?_
  cases v with
  | list allocation elements => exact .pure elements
  | _ => exact .fail _ _

theorem calleeOf_oblivious (callee : String) (place : Position) :
    Oblivious (calleeOf callee place) := by
  apply Oblivious.resolve_bind
  · intro symbol
    rw [symbol.declaration?_erased]
  · intro symbol
    cases symbol.declaration? with
    | some d => exact .pure d
    | none => exact .fail _ _

theorem valueOf_oblivious (name : String) (place : Position) :
    Oblivious (valueOf name place) := by
  apply Oblivious.resolve_bind
  · intro symbol
    rw [symbol.value_erased, symbol.declaration?_erased]
  · intro symbol
    cases symbol.value with
    | some v => exact .pure v
    | none =>
      cases symbol.declaration? with
      | some d => exact .pure _
      | none => exact .fail _ _

/-- A name that is passed as its type has nothing to evaluate to, so its type is not erased. -/
theorem argument_oblivious (e : Expr) {value : Eval Value} (h : Oblivious value) :
    Oblivious (argument e value) := by
  unfold argument
  split
  · apply Oblivious.resolve_bind
    · intro symbol
      rw [symbol.isUnbound_erased]
      split
      · rename_i hunbound
        rw [Symbol.erased_of_isUnbound hunbound]
      · rfl
    · intro symbol
      split
      · exact .pure _
      · exact h
  · exact h

mutual

theorem evaluate_oblivious
    (hcall : ∀ callee place d values, Oblivious (call callee place d values)) :
    ∀ e : Expr, Oblivious (evaluate mode call e)
  | .boolean _ _ | .number _ _ | .text _ _ => .pure _
  | .identifier span name => valueOf_oblivious name span.start
  | .call span callee arguments =>
    .bind (calleeOf_oblivious callee span.start) fun _ =>
      .bind (evaluateArguments_oblivious hcall arguments) fun _ => hcall _ _ _ _
  | .unary _ .not operand =>
    .bind (asBoolean_oblivious (evaluate_oblivious hcall operand)) fun _ => .pure _
  | .unary _ .negate operand =>
    .bind (asReal_oblivious (evaluate_oblivious hcall operand)) fun _ => .pure _
  | .binary span op left right => by
    have hleft := evaluate_oblivious hcall left
    have hright := evaluate_oblivious hcall right
    cases op with
    | and | or =>
      exact .bind (asBoolean_oblivious hleft) fun _ =>
        .bind (asBoolean_oblivious hright) fun _ => .pure _
    | compare _ | arithmetic _ =>
      exact .bind (asReal_oblivious hleft) fun _ =>
        .bind (asReal_oblivious hright) fun _ => .pure _
    | equals =>
      exact .bind hleft fun _ => .bind hright fun _ => .bind (.lift _) fun _ => .pure _
    | concat =>
      exact .bind (asList_oblivious hleft) fun _ =>
        .bind (asList_oblivious hright) fun _ => .newList _
  | .conditional _ condition whenTrue whenFalse => by
    refine .bind (asBoolean_oblivious (evaluate_oblivious hcall condition)) fun holds => ?_
    cases holds with
    | true => exact evaluate_oblivious hcall whenTrue
    | false => exact evaluate_oblivious hcall whenFalse
  | .list _ elements => .bind (evaluateElements_oblivious hcall elements) fun _ => .newList _

theorem evaluateArguments_oblivious
    (hcall : ∀ callee place d values, Oblivious (call callee place d values)) :
    ∀ es : List Expr, Oblivious (evaluateArguments mode call es)
  | [] => .pure _
  | e :: rest =>
    .bind (argument_oblivious e (evaluate_oblivious hcall e)) fun _ =>
      .bind (evaluateArguments_oblivious hcall rest) fun _ => .pure _

theorem evaluateElements_oblivious
    (hcall : ∀ callee place d values, Oblivious (call callee place d values)) :
    ∀ es : List Expr, Oblivious (evaluateElements mode call es)
  | [] => .pure _
  | e :: rest =>
    .bind (evaluate_oblivious hcall e) fun _ =>
      .bind (evaluateElements_oblivious hcall rest) fun _ => .pure _

end

theorem evaluateBody_oblivious
    (hcall : ∀ callee place d values, Oblivious (call callee place d values)) (body : Body) :
    Oblivious (evaluateBody mode call body) := by
  cases body with
  | inline value => exact evaluate_oblivious hcall value
  | piecewise span branches otherwise =>
    unfold evaluateBody
    induction branches with
    | nil => exact evaluate_oblivious hcall otherwise
    | cons branch rest ih =>
      refine .bind (asBoolean_oblivious (evaluate_oblivious hcall branch.guard)) fun holds => ?_
      cases holds with
      | true => exact evaluate_oblivious hcall branch.action
      | false => exact ih

end Expressions

/-- The symbol of a parameter keeps all that it has, so parameters are declared alike. -/
theorem declareParameters_oblivious (qs : List Param) : Oblivious (declareParameters qs) := by
  induction qs with
  | nil => exact .pure ()
  | cons q qs ih =>
    intro s
    let symbol : Symbol := .parameter q.name q.type.toTy
    have hstep : ∀ t, declareParameters (q :: qs) t =
        EStateM.bind (lift (t.scopes.declare symbol q.span.start))
          (fun scopes _ => declareParameters qs { t with scopes }) t := fun _ => rfl
    have hdeclare : s.scopes.erased.declare symbol q.span.start =
        (s.scopes.declare symbol q.span.start).map Scopes.erased :=
      s.scopes.declare_erased symbol q.span.start
    rw [hstep, hstep]
    show EStateM.bind (lift (s.scopes.erased.declare symbol q.span.start)) _ s.erased = _
    rw [hdeclare]
    cases s.scopes.declare symbol q.span.start with
    | error d => rfl
    | ok scopes => exact ih { s with scopes }

theorem bindParameters_oblivious (qs : List Param) (values : List Value) :
    Oblivious (bindParameters qs values) := by
  refine .bind (declareParameters_oblivious qs) fun _ s => ?_
  have hbound : (s.scopes.setCurrent (s.scopes.current.bind values)).erased =
      s.scopes.erased.setCurrent (s.scopes.erased.current.bind values) := by
    rw [Scopes.setCurrent_erased, Scope.bind_erased, Scopes.current_erased]
  show EStateM.Result.ok () _ = EStateM.Result.ok () _
  unfold State.erased
  simp only [hbound]

theorem applyBuiltin_oblivious (b : Builtin) (values : List Value) (place : Position) :
    Oblivious (applyBuiltin b values place) := by
  intro s
  have hstep : ∀ t, applyBuiltin b values place t =
      EStateM.bind (lift (b.apply t.allocated values place))
        (fun value _ => .ok value { t with allocated := t.allocated + 1 }) t := fun _ => rfl
  rw [hstep, hstep]
  show EStateM.bind (lift (b.apply s.allocated values place)) _ s.erased = _
  cases b.apply s.allocated values place <;> rfl

theorem callWith_oblivious {run : Body → Eval Value} (h : ∀ body, Oblivious (run body))
    (callee : String) (place : Position) (d : Declaration) (values : List Value) :
    Oblivious (callWith run callee place d values) := by
  refine .bind (fun _ => rfl) fun _ => .inFrame ?_
  refine .bind (bindParameters_oblivious d.parameters values) fun _ => ?_
  split
  · exact applyBuiltin_oblivious _ values place
  · exact h d.body

theorem runBody_oblivious (mode : ListEquality) (depth : Nat) :
    ∀ body, Oblivious (runBody mode depth body) := by
  induction depth with
  | zero => exact fun _ => .throw _
  | succ depth ih => exact fun body => evaluateBody_oblivious (callWith_oblivious ih) body

theorem runExpr_oblivious (mode : ListEquality) (depth : Nat) (e : Expr) :
    Oblivious (runExpr mode depth e) :=
  evaluate_oblivious (callWith_oblivious (runBody_oblivious mode depth)) e

theorem runEntry_oblivious (mode : ListEquality) (depth : Nat) (d : Declaration) :
    Oblivious (runEntry mode depth d) :=
  .inFrame (.bind (bindParameters_oblivious d.parameters []) fun _ =>
    runBody_oblivious mode depth d.body)

end Evaluation

/-- An entry is found whether functions have their type or not. -/
theorem Program.entry_of_erased {s t : Scopes} (h : s.erased = t.erased) (name : String) :
    entry name s = entry name t := by
  have hdeclaration : ∀ u : Scopes, (u.global.get? name).bind Symbol.declaration? =
      (u.erased.global.get? name).bind Symbol.declaration? := by
    intro u
    show _ = (u.global.erased.get? name).bind Symbol.declaration?
    rw [Scope.get?_erased]
    cases u.global.get? name with
    | none => rfl
    | some symbol => exact symbol.declaration?_erased.symm
  unfold entry
  rw [hdeclaration s, hdeclaration t, h]

/-- What has been checked is what has been declared, but for types of functions. -/
theorem Program.erased_globals (p : Program) (resolved : List String) (locals : List Scope) :
    Scopes.erased ⟨p.globals resolved, locals⟩ = Scopes.erased ⟨p.globals [], locals⟩ := by
  have hsymbols : (p.globals resolved).erased = (p.globals []).erased := by
    unfold globals Scope.erased
    rw [List.map_map, List.map_map]
    refine congrArg Scope.mk (List.map_congr_left fun d _ => ?_)
    simp only [Function.comp]
    split <;> rfl
  unfold Scopes.erased
  rw [hsymbols]

namespace Evaluation

open Typing in
/-- A run has the same outcome in states that differ in nothing but the types of functions: the
same value or the same fault, with the same calls and allocations on the way. So a program runs as
declared the way it runs after the check, whether the check succeeds or not. -/
theorem runs_ignore_function_types :
    (∀ s t : State, s.erased = t.erased → ∀ mode depth,
      (∀ e, erasedOutcome (runExpr mode depth e s) = erasedOutcome (runExpr mode depth e t)) ∧
      (∀ body,
        erasedOutcome (runBody mode depth body s) = erasedOutcome (runBody mode depth body t)) ∧
      ∀ d, erasedOutcome (runEntry mode depth d s) = erasedOutcome (runEntry mode depth d t)) ∧
    ∀ p declared, Scopes.ofProgram p = .ok declared →
      ∀ checked, checked = (leftBy (checkProgram p (.initial declared))).scopes →
        (∀ name, Program.entry name declared = Program.entry name checked) ∧
        ∀ mode depth d,
          erasedOutcome (runEntry mode depth d (.initial declared)) =
            erasedOutcome (runEntry mode depth d (.initial checked)) := by
  refine ⟨fun s t hst mode depth => ⟨fun e => ?_, fun body => ?_, fun d => ?_⟩, ?_⟩
  · exact (runExpr_oblivious mode depth e).outcomes hst
  · exact (runBody_oblivious mode depth body).outcomes hst
  · exact (runEntry_oblivious mode depth d).outcomes hst
  · intro p declared hdeclared checked hchecked
    obtain ⟨hp, rfl⟩ := Scopes.ofProgram_eq_ok_iff.mp hdeclared
    obtain ⟨_, visited, _, hleft⟩ :=
      checkProgram_visits hp (fun _ => return ()) (Nat.le_refl _)
    have hscopes : checked = ⟨p.globals visited, []⟩ := hchecked.trans (congrArg _ hleft)
    have herased : Scopes.erased ⟨p.globals [], []⟩ = checked.erased := by
      rw [hscopes, p.erased_globals visited]
    refine ⟨Program.entry_of_erased herased, fun mode depth d => ?_⟩
    apply (runEntry_oblivious mode depth d).outcomes
    exact congrArg State.initial herased

/-- `swap(first: string, second: string) -> [string] = [second, first]`. -/
def swap : Declaration where
  number := 0
  name := "swap"
  parameters := [⟨"first", .primitive default .string, default⟩,
    ⟨"second", .primitive default .string, default⟩]
  returns := .list default (.primitive default .string)
  body := .inline (.list default [.identifier default "second", .identifier default "first"])
  span := default

/-- `main() -> string = swap("a", "b")`. -/
def misdeclaredSwap : Declaration where
  number := 1
  name := "main"
  parameters := []
  returns := .primitive default .string
  body := .inline (.call default "swap" [.text default "a", .text default "b"])
  span := default

def swapProgram : Program := ⟨[misdeclaredSwap, swap], default⟩

open Typing in
/-- The check fails after it has found the type of `swap`. A run of `main`, whose body is no string
as declared, does not look at it. -/
theorem runs_ignore_function_types_swapProgram :
    ∃ declared checked, Scopes.ofProgram swapProgram = .ok declared ∧
      checked = (leftBy (checkProgram swapProgram (.initial declared))).scopes ∧
      (declared.global.get? "swap").map Symbol.type = some .unresolved ∧
      (checked.global.get? "swap").map Symbol.type = some swap.signature ∧
      (∃ s, runEntry .structural 3 misdeclaredSwap (.initial declared) =
        .ok (.list 0 [.text "b", .text "a"]) s) ∧
      erasedOutcome (runEntry .structural 3 misdeclaredSwap (.initial declared)) =
        erasedOutcome (runEntry .structural 3 misdeclaredSwap (.initial checked)) := by
  have hdeclared : Scopes.ofProgram swapProgram = .ok ⟨swapProgram.globals [], []⟩ := rfl
  have hruns := (runs_ignore_function_types.2 swapProgram _ hdeclared _ rfl).2
  exact ⟨_, _, hdeclared, rfl, rfl, rfl, ⟨_, rfl⟩, hruns .structural 3 misdeclaredSwap⟩

end Evaluation

end Piecewise
