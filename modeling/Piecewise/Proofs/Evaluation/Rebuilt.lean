import Piecewise.Proofs.Evaluation.Shape
import Piecewise.Proofs.Run.Concatenation
import Piecewise.Proofs.Value.Equality

/-!
# Lists taken apart and put together again

The head and the tail of a list hold the very elements of the list, and so does the list that they
are put together to. So `[head(x)] ++ tail(x) == x` holds of every list that is not empty, even
where the identity of lists within it is checked. Tails of tails come to an empty list after as many
steps as the list has elements, and that list is its own tail.
-/

namespace Piecewise

namespace Evaluation

variable {mode : ListEquality} {depth : Nat} {s t : State} {b : Builtin} {x : String} {v w : Value}
  {e : Expr} {span : Span}

def Bound (scopes : Scopes) (x : String) (v : Value) : Prop :=
  ∃ symbol, scopes.resolve? x = some symbol ∧ symbol.value = some v

/-- Scopes in which the name of a builtin stands for a function of that name, whose parameters have
different names. -/
def Offers (scopes : Scopes) (b : Builtin) : Prop :=
  ∃ symbol d, scopes.resolve? b.name = some symbol ∧ symbol.declaration? = some d ∧
    d.name = b.name ∧ d.parameterNames.Nodup

theorem resolve_ok {symbol : Symbol} (h : s.scopes.resolve? x = some symbol) (place : Position) :
    resolve x place s = .ok symbol s := by
  change lift (s.scopes.resolve x place) s = _
  rw [Scopes.resolve, h]
  rfl

/-! ## Steps -/

/-- What an operand of a call gives: an argument, or the halt of it. -/
def operand (mode : ListEquality) (depth : Nat) (e : Expr) : Eval Value :=
  argument e (runExpr mode depth e)

theorem runExpr_bound (h : Bound s.scopes x v) :
    runExpr mode depth (.identifier span x) s = .ok v s := by
  obtain ⟨symbol, hsymbol, hv⟩ := h
  refine (bind_ok (resolve_ok hsymbol span.start)).trans ?_
  rw [hv]
  rfl

theorem operand_bound (h : Bound s.scopes x v) :
    operand mode depth (.identifier span x) s = .ok v s := by
  obtain ⟨symbol, hsymbol, hv⟩ := h
  have hbound : symbol.isUnbound = false := by
    rw [Symbol.isUnbound, hv]
    rfl
  refine (bind_ok (resolve_ok hsymbol span.start)).trans ?_
  rw [hbound]
  exact runExpr_bound ⟨symbol, hsymbol, hv⟩

theorem applyBuiltin_ok {values : List Value} {place : Position}
    (h : b.apply s.allocated values place = .ok v) :
    applyBuiltin b values place s = .ok v { s with allocated := s.allocated + 1 } := by
  change (lift (b.apply s.allocated values place) >>= fun value => do
    set { s with allocated := s.allocated + 1 }
    return value) s = _
  rw [h]
  rfl

/-- A call by the name of a builtin binds the parameters and runs the builtin on the value of its
operand. -/
theorem runExpr_builtin (hb : Offers s.scopes b) (he : operand mode depth e s = .ok v t)
    (h : b.apply t.allocated [v] span.start = .ok w) :
    runExpr mode depth (.call span b.name [e]) s =
      .ok w { t with calls := b.name :: t.calls, allocated := t.allocated + 1 } := by
  obtain ⟨symbol, d, hsymbol, hd, hname, hdistinct⟩ := hb
  have hcallee : calleeOf b.name span.start s = .ok d s := by
    refine (bind_ok (resolve_ok hsymbol span.start)).trans ?_
    rw [hd]
    rfl
  have harguments : evaluateArguments mode (callWith (runBody mode depth)) [e] s =
      .ok [v] t := bind_ok he
  have hbuiltin : Builtin.ofName? d.name = some b := by
    rw [hname]
    cases b <;> rfl
  let counted : State := { t with calls := b.name :: t.calls }
  let bound : State :=
    { counted with scopes := ⟨t.scopes.global, [⟨boundSymbols d.parameters [v]⟩]⟩ }
  have hbind : bindParameters d.parameters [v]
      { counted with scopes := ⟨t.scopes.global, [.empty]⟩ } = .ok () bound := by
    rw [bindParameters_eq rfl hdistinct]
  have hrun : applyBuiltin b [v] span.start bound =
      .ok w { bound with allocated := t.allocated + 1 } := applyBuiltin_ok h
  refine (bind_ok hcallee).trans ((bind_ok harguments).trans ?_)
  refine inFrame_ok (s := counted) (t := { bound with allocated := t.allocated + 1 }) ?_
  refine (bind_ok hbind).trans ?_
  rw [hbuiltin]
  exact hrun

/-! ## The list put together -/

/-- `[head(x)] ++ tail(x)`. -/
def rebuilt (span : Span) (x : String) : Expr :=
  .binary span .concat (.list span [.call span "head" [.identifier span x]])
    (.call span "tail" [.identifier span x])

section Rebuilt

variable {i : Nat} {first : Value} {rest vs : List Value}

theorem runExpr_singleton (h : runExpr mode depth e s = .ok v t) :
    runExpr mode depth (.list span [e]) s =
      .ok (.list t.allocated [v]) { t with allocated := t.allocated + 1 } :=
  bind_ok (bind_ok h)

/-- The elements are those of the list, in a list of its own. -/
theorem runExpr_rebuilt (hhead : Offers s.scopes .head) (htail : Offers s.scopes .tail)
    (hx : Bound s.scopes x (.list i (first :: rest))) :
    ∃ j t, runExpr mode depth (rebuilt span x) s = .ok (.list j (first :: rest)) t ∧
      t.scopes = s.scopes := by
  have hfirst : runExpr mode depth (.call span "head" [.identifier span x]) s =
      .ok first { s with calls := "head" :: s.calls, allocated := s.allocated + 1 } :=
    runExpr_builtin (b := .head) hhead (operand_bound hx) rfl
  let single : State := { s with calls := "head" :: s.calls, allocated := s.allocated + 2 }
  have hrest : runExpr mode depth (.call span "tail" [.identifier span x]) single =
      .ok (.list single.allocated rest)
        { single with calls := "tail" :: single.calls, allocated := single.allocated + 1 } :=
    runExpr_builtin (b := .tail) (s := single) htail (operand_bound hx) rfl
  exact ⟨_, _, concat_ok (elementsOf_ok (runExpr_singleton hfirst)) (elementsOf_ok hrest), rfl⟩

/-- `tail(tail(… tail(x)))`, a number of times. -/
def tails (span : Span) (x : String) : Nat → Expr
  | 0 => .identifier span x
  | n + 1 => .call span "tail" [tails span x n]

/-- One more tail leaves one element less, and an empty list as it is. -/
theorem runExpr_tails_succ (htail : Offers s.scopes .tail) {n : Nat}
    (h : operand mode depth (tails span x n) s = .ok (.list i vs) t) :
    ∃ j u, runExpr mode depth (tails span x (n + 1)) s = .ok (.list j vs.tail) u ∧
      (vs = [] → j = i) := by
  cases vs with
  | nil => exact ⟨i, _, runExpr_builtin (b := .tail) htail h rfl, fun _ => rfl⟩
  | cons first rest => exact ⟨_, _, runExpr_builtin (b := .tail) htail h rfl, nofun⟩

theorem operand_tails (htail : Offers s.scopes .tail) (hx : Bound s.scopes x (.list i vs))
    (n : Nat) :
    ∃ j t, operand mode depth (tails span x n) s = .ok (.list j (vs.drop n)) t := by
  induction n with
  | zero => exact ⟨i, s, operand_bound hx⟩
  | succ n ih =>
    obtain ⟨j, t, h⟩ := ih
    obtain ⟨k, u, hnext, _⟩ := runExpr_tails_succ htail h
    rw [List.tail_drop] at hnext
    exact ⟨k, u, hnext⟩

/-- From an empty list on, all tails are that list. -/
theorem operand_tails_add (htail : Offers s.scopes .tail) {n : Nat}
    (h : operand mode depth (tails span x n) s = .ok (.list i []) t) (m : Nat) :
    ∃ u, operand mode depth (tails span x (n + m)) s = .ok (.list i []) u := by
  induction m with
  | zero => exact ⟨t, h⟩
  | succ m ih =>
    obtain ⟨u, h⟩ := ih
    obtain ⟨j, w, hnext, hsame⟩ := runExpr_tails_succ htail h
    obtain rfl := hsame rfl
    exact ⟨w, hnext⟩

theorem runExpr_of_operand_tails (hx : Bound s.scopes x (.list i vs)) {n : Nat}
    (h : operand mode depth (tails span x n) s = .ok v t) :
    runExpr mode depth (tails span x n) s = .ok v t := by
  cases n with
  | zero => rwa [tails, runExpr_bound hx, ← operand_bound hx]
  | succ n => exact h

end Rebuilt

/-- Taking a list apart and putting it together again is invisible to `==`. Where `x` is a list that
is not empty, `[head(x)] ++ tail(x)` has a value, the value equals the list in either mode, and so
`[head(x)] ++ tail(x) == x` holds. Tails of tails of the list are not empty before there are as many
as it has elements, and are one and the same empty list from then on. -/
theorem list_taken_apart_and_rebuilt (mode : ListEquality) (depth : Nat) {s : State} {x : String}
    {i : Nat} {vs : List Value} (hne : vs ≠ []) (hhead : Offers s.scopes .head)
    (htail : Offers s.scopes .tail) (hx : Bound s.scopes x (.list i vs)) (span : Span) :
    (∃ w t, runExpr mode depth (rebuilt span x) s = .ok w t ∧
      ∀ mode' place, Value.equal mode' place w (.list i vs) = .ok true) ∧
    (∃ t, runExpr mode depth (.binary span .equals (rebuilt span x) (.identifier span x)) s =
      .ok (.boolean true) t) ∧
    (∀ n < vs.length, ∃ j t, runExpr mode depth (tails span x n) s = .ok (.list j (vs.drop n)) t ∧
      vs.drop n ≠ []) ∧
    ∃ j, ∀ n, vs.length ≤ n → ∃ t, runExpr mode depth (tails span x n) s = .ok (.list j []) t := by
  obtain ⟨first, rest, rfl⟩ := List.exists_cons_of_ne_nil hne
  obtain ⟨j, t, hrebuilt, ht⟩ : ∃ j t,
      runExpr mode depth (rebuilt span x) s = .ok (.list j (first :: rest)) t ∧
        t.scopes = s.scopes := runExpr_rebuilt hhead htail hx
  have hequal : ∀ mode' place,
      Value.equal mode' place (.list j (first :: rest)) (.list i (first :: rest)) = .ok true :=
    fun mode' place => Value.equal_lists_iff.mpr (Value.EqualElements.reflAll mode' _)
  refine ⟨⟨_, t, hrebuilt, hequal⟩, ⟨t, ?_⟩, fun n hn => ?_, ?_⟩
  · refine (bind_ok hrebuilt).trans ((bind_ok (runExpr_bound (ht ▸ hx))).trans ?_)
    rw [hequal]
    rfl
  · obtain ⟨k, u, h⟩ := operand_tails htail hx n
    exact ⟨k, u, runExpr_of_operand_tails hx h, by simpa using hn⟩
  · obtain ⟨k, u, h⟩ := operand_tails htail hx (first :: rest).length
    rw [List.drop_length] at h
    refine ⟨k, fun n hn => ?_⟩
    obtain ⟨m, rfl⟩ := Nat.exists_eq_add_of_le hn
    obtain ⟨w, hlast⟩ := operand_tails_add htail h m
    exact ⟨w, runExpr_of_operand_tails hx hlast⟩

/-- `[[true], 0 / 0, tail]`. -/
def mixedElements : List Value :=
  [.list 0 [.boolean true], .real (0 / 0), .function preludeTail]

/-- A frame in which such a list is bound to `xs`, on the builtins of the prelude. -/
def boundMixedList : State where
  scopes := ⟨⟨[.ofDeclaration preludeHead, .ofDeclaration preludeTail]⟩,
    [⟨[{ Symbol.parameter "xs" (.list .real) with value := some (.list 1 mixedElements) }]⟩]⟩
  calls := []
  allocated := 2

/-- The first element is a list, which stays the same list, and the second equals itself only as an
element. -/
theorem list_taken_apart_and_rebuilt_mixedElements :
    Offers boundMixedList.scopes .head ∧ Offers boundMixedList.scopes .tail ∧
      Bound boundMixedList.scopes "xs" (.list 1 mixedElements) ∧
      runExpr .identityChecked 0 (rebuilt default "xs") boundMixedList =
        .ok (.list 5 mixedElements)
          { boundMixedList with calls := ["tail", "head"], allocated := 6 } ∧
      (∃ t, runExpr .identityChecked 0
        (.binary default .equals (rebuilt default "xs") (.identifier default "xs")) boundMixedList =
          .ok (.boolean true) t) ∧
      ∃ j t, runExpr .identityChecked 0 (tails default "xs" 3) boundMixedList =
        .ok (.list j []) t := by
  have hhead : Offers boundMixedList.scopes .head := ⟨_, preludeHead, rfl, rfl, rfl, by decide⟩
  have htail : Offers boundMixedList.scopes .tail := ⟨_, preludeTail, rfl, rfl, rfl, by decide⟩
  have hx : Bound boundMixedList.scopes "xs" (.list 1 mixedElements) := ⟨_, rfl, rfl⟩
  obtain ⟨_, hequal, _, j, hend⟩ := list_taken_apart_and_rebuilt .identityChecked 0
    (List.cons_ne_nil _ _) hhead htail hx default
  exact ⟨hhead, htail, hx, rfl, hequal, j, hend 3 (Nat.le_refl 3)⟩

end Evaluation

end Piecewise
