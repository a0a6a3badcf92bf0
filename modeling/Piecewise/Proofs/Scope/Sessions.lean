import Piecewise.Scope.Stack

/-!
# Sessions on scopes

A session is any sequence of operations on scopes. Frames are left in the reverse order in which
they are entered, each with what it hides. How scopes are kept is a parameter: if scopes kept in one
way can be seen as scopes kept in another, and no single operation can tell the difference, then no
session can.
-/

namespace Piecewise

/-- The scope that an operation is for. -/
inductive Target
  | innermost
  | global

/-- What may be written to a symbol. Its name and what it stands for stay. -/
inductive Write
  | type (found : Ty)
  | value (content : Option Value)

namespace Write

def apply : Write → Symbol → Symbol
  | type found, symbol => { symbol with type := found }
  | value content, symbol => { symbol with value := content }

theorem name_apply (change : Write) (symbol : Symbol) :
    (change.apply symbol).name = symbol.name := by
  cases change <;> rfl

end Write

inductive Operation
  | push
  | declare (target : Target) (symbol : Symbol) (place : Position)
  | get (target : Target) (name : String)
  | write (target : Target) (name : String) (change : Write)
  | resolve (name : String) (place : Position)
  | enterFrame
  | leaveFrame

inductive Reply
  | done
  | found (symbol : Symbol)
  | missing
  | failed (fault : Diagnostic)

/-- A way to keep scopes. What a frame hides is handed out when the frame is entered. -/
structure Keeping (σ η : Type) where
  push : σ → σ
  declare : σ → Target → Symbol → Position → Except Diagnostic σ
  get? : σ → Target → String → Option Symbol
  write : σ → Target → String → Write → σ
  resolve : σ → String → Position → Except Diagnostic Symbol
  enterFrame : σ → η × σ
  leaveFrame : σ → η → σ

/-- Scopes, and what the frames that are not left yet hide, the latest frame first. -/
structure Session (σ η : Type) where
  scopes : σ
  suspended : List η

namespace Keeping

variable {σ η σ' η' : Type}

/-- One operation. Where no frame is entered, none is left. -/
def step (k : Keeping σ η) (s : Session σ η) : Operation → Session σ η × Reply
  | .push => ({ s with scopes := k.push s.scopes }, .done)
  | .declare target symbol place =>
    match k.declare s.scopes target symbol place with
    | .ok scopes => ({ s with scopes := scopes }, .done)
    | .error fault => (s, .failed fault)
  | .get target name =>
    match k.get? s.scopes target name with
    | some symbol => (s, .found symbol)
    | none => (s, .missing)
  | .write target name change => ({ s with scopes := k.write s.scopes target name change }, .done)
  | .resolve name place =>
    match k.resolve s.scopes name place with
    | .ok symbol => (s, .found symbol)
    | .error fault => (s, .failed fault)
  | .enterFrame =>
    (⟨(k.enterFrame s.scopes).2, (k.enterFrame s.scopes).1 :: s.suspended⟩, .done)
  | .leaveFrame =>
    match s.suspended with
    | [] => (s, .done)
    | hidden :: rest => (⟨k.leaveFrame s.scopes hidden, rest⟩, .done)

def after (k : Keeping σ η) (s : Session σ η) (ops : List Operation) : Session σ η :=
  ops.foldl (fun s op => (k.step s op).1) s

def replies (k : Keeping σ η) (s : Session σ η) : List Operation → List Reply
  | [] => []
  | op :: ops => (k.step s op).2 :: k.replies (k.step s op).1 ops

/-- Scopes kept in one way can be seen as scopes kept in another way, which every operation
respects. -/
structure Represents (k : Keeping σ η) (k' : Keeping σ' η') (view : σ → σ')
    (viewHidden : η → η') : Prop where
  push : ∀ s, view (k.push s) = k'.push (view s)
  declare : ∀ s target symbol place,
    (k.declare s target symbol place).map view = k'.declare (view s) target symbol place
  get? : ∀ s target name, k.get? s target name = k'.get? (view s) target name
  write : ∀ s target name change,
    view (k.write s target name change) = k'.write (view s) target name change
  resolve : ∀ s name place, k.resolve s name place = k'.resolve (view s) name place
  enterFrame : ∀ s, (viewHidden (k.enterFrame s).1, view (k.enterFrame s).2) =
    k'.enterFrame (view s)
  leaveFrame : ∀ s hidden, view (k.leaveFrame s hidden) = k'.leaveFrame (view s) (viewHidden hidden)

end Keeping

namespace Session

variable {σ η σ' η' : Type}

def map (view : σ → σ') (viewHidden : η → η') (s : Session σ η) : Session σ' η' :=
  ⟨view s.scopes, s.suspended.map viewHidden⟩

end Session

namespace Keeping.Represents

variable {σ η σ' η' : Type} {k : Keeping σ η} {k' : Keeping σ' η'} {view : σ → σ'}
  {viewHidden : η → η'}

theorem step (h : k.Represents k' view viewHidden) (s : Session σ η) (op : Operation) :
    k'.step (s.map view viewHidden) op =
      ((k.step s op).1.map view viewHidden, (k.step s op).2) := by
  cases op with
  | push => exact congrArg (fun scopes => (Session.mk scopes _, Reply.done)) (h.push _).symm
  | declare target symbol place =>
    have hdeclare := h.declare s.scopes target symbol place
    simp only [Keeping.step, Session.map]
    rw [← hdeclare]
    cases k.declare s.scopes target symbol place <;> rfl
  | get target name =>
    simp only [Keeping.step, Session.map]
    rw [← h.get?]
    cases k.get? s.scopes target name <;> rfl
  | write target name change =>
    exact congrArg (fun scopes => (Session.mk scopes _, Reply.done)) (h.write ..).symm
  | resolve name place =>
    simp only [Keeping.step, Session.map]
    rw [← h.resolve]
    cases k.resolve s.scopes name place <;> rfl
  | enterFrame =>
    simp only [Keeping.step, Session.map]
    rw [← h.enterFrame]
    rfl
  | leaveFrame =>
    obtain ⟨scopes, suspended⟩ := s
    cases suspended with
    | nil => rfl
    | cons hidden rest =>
      exact congrArg (fun scopes => (Session.mk scopes _, Reply.done)) (h.leaveFrame ..).symm

theorem after (h : k.Represents k' view viewHidden) (s : Session σ η) (ops : List Operation) :
    k'.after (s.map view viewHidden) ops = (k.after s ops).map view viewHidden := by
  induction ops generalizing s with
  | nil => rfl
  | cons op ops ih =>
    rw [Keeping.after, List.foldl_cons, h.step]
    exact ih _

theorem replies (h : k.Represents k' view viewHidden) (s : Session σ η) (ops : List Operation) :
    k'.replies (s.map view viewHidden) ops = k.replies s ops := by
  induction ops generalizing s with
  | nil => rfl
  | cons op ops ih => rw [Keeping.replies, Keeping.replies, h.step, ih]

end Keeping.Represents

namespace Operation

def isFraming : Operation → Bool
  | enterFrame | leaveFrame => true
  | _ => false

/-- Operations of which every frame that is entered is left, and no other. -/
inductive Enclosed : List Operation → Prop
  | nil : Enclosed []
  | plain {op : Operation} {ops : List Operation} (hop : op.isFraming = false)
      (h : Enclosed ops) : Enclosed (op :: ops)
  | frame {inner ops : List Operation} (h : Enclosed inner) (k : Enclosed ops) :
      Enclosed (.enterFrame :: inner ++ .leaveFrame :: ops)

end Operation

namespace Keeping

variable {σ η : Type} (k : Keeping σ η)

theorem after_append (s : Session σ η) (ops others : List Operation) :
    k.after s (ops ++ others) = k.after (k.after s ops) others := List.foldl_append

theorem suspended_step {op : Operation} (hop : op.isFraming = false)
    (s : Session σ η) : (k.step s op).1.suspended = s.suspended := by
  cases op with
  | push | write => rfl
  | declare target symbol place =>
    rw [step]
    split <;> rfl
  | get target name =>
    rw [step]
    split <;> rfl
  | resolve name place =>
    rw [step]
    split <;> rfl
  | enterFrame | leaveFrame => cases hop

/-- To leave the latest frame brings back what the frame hides. -/
theorem step_leaveFrame {s : Session σ η} {hidden : η} {rest : List η}
    (h : s.suspended = hidden :: rest) :
    (k.step s .leaveFrame).1 = ⟨k.leaveFrame s.scopes hidden, rest⟩ := by
  rw [step, h]

/-- After operations that enclose their frames, nothing more is suspended and nothing less. -/
theorem suspended_after {ops : List Operation} (h : Operation.Enclosed ops) (s : Session σ η) :
    (k.after s ops).suspended = s.suspended := by
  induction h generalizing s with
  | nil => rfl
  | @plain op ops hop _ ih => exact (ih (k.step s op).1).trans (k.suspended_step hop s)
  | @frame inner ops _ _ ihInner ihOps =>
    have hinner : (k.after (k.step s .enterFrame).1 inner).suspended =
        (k.enterFrame s.scopes).1 :: s.suspended := ihInner _
    have hleft := congrArg Session.suspended (k.step_leaveFrame hinner)
    rw [after_append]
    exact (ihOps _).trans hleft

/-- Between entering a frame and leaving it, operations change what is not hidden, and only that. -/
theorem after_frame {inner : List Operation} (h : Operation.Enclosed inner) (s : Session σ η) :
    k.after s (.enterFrame :: inner ++ [.leaveFrame]) =
      ⟨k.leaveFrame (k.after s (.enterFrame :: inner)).scopes (k.enterFrame s.scopes).1,
        s.suspended⟩ := by
  rw [after_append]
  exact k.step_leaveFrame (k.suspended_after h (k.step s .enterFrame).1)

end Keeping

namespace Scopes

def scope (s : Scopes) : Target → Scope
  | .innermost => s.current
  | .global => s.global

def setScope (s : Scopes) : Target → Scope → Scopes
  | .innermost, scope => s.setCurrent scope
  | .global, scope => { s with global := scope }

def keeping : Keeping Scopes (List Scope) where
  push := Scopes.push
  declare s
    | .innermost => s.declare
    | .global => s.declareGlobal
  get? s target name := (s.scope target).get? name
  write s target name change := s.setScope target ((s.scope target).modify name change.apply)
  resolve := Scopes.resolve
  enterFrame := Scopes.enterFrame
  leaveFrame := Scopes.leaveFrame

theorem keeping_declare (s : Scopes) (target : Target) (symbol : Symbol) (place : Position) :
    keeping.declare s target symbol place =
      ((s.scope target).declare symbol place).map (s.setScope target) := by
  cases target <;> rfl

end Scopes

end Piecewise
