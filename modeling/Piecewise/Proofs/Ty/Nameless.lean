import Piecewise.Proofs.Ty.Agreement

/-!
# Names of parameters in types

Function types keep the names of their parameters, but no comparison of types looks at them. So
types that are the same once all names are left out compare alike and have the same joins, names
aside.
-/

namespace Piecewise

namespace Ty

mutual

/-- The type with the names of all parameters left out. -/
def nameless : Ty → Ty
  | boolean => boolean
  | real => real
  | integer => integer
  | text => text
  | list element => list element.nameless
  | function parameters output => function (namelessAll parameters) output.nameless
  | unresolved => unresolved

def namelessAll : List (Parameter Ty) → List (Parameter Ty)
  | [] => []
  | ⟨_, type⟩ :: rest => ⟨"", type.nameless⟩ :: namelessAll rest

end

variable {a b type : Ty}

@[simp] theorem kind_nameless (a : Ty) : a.nameless.kind = a.kind := by
  cases a <;> rfl

@[simp] theorem isResolved_nameless (a : Ty) : a.nameless.isResolved = a.isResolved := by
  cases a <;> rfl

@[simp] theorem element?_nameless (a : Ty) :
    a.nameless.element? = a.element?.map nameless := by
  cases a <;> rfl

theorem namelessAll_eq_map (ps : List (Parameter Ty)) :
    namelessAll ps = ps.map fun q => ⟨"", q.type.nameless⟩ := by
  induction ps with
  | nil => rfl
  | cons q ps ih => rw [namelessAll, ih]; rfl

mutual

@[simp] theorem agrees_nameless : ∀ a b : Ty, a.nameless.agrees b.nameless = a.agrees b
  | list a, b => by cases b <;> simp [nameless, agrees, agrees_nameless a, sameKind, kind]
  | function ps a, b => by
    cases b <;> simp [nameless, agrees, agrees_nameless a, agreesAll_nameless ps, sameKind, kind]
  | boolean, b => by cases b <;> rfl
  | real, b => by cases b <;> rfl
  | integer, b => by cases b <;> rfl
  | text, b => by cases b <;> rfl
  | unresolved, b => by cases b <;> rfl

theorem agreesAll_nameless : ∀ ps qs : List (Parameter Ty),
    agreesAll (namelessAll ps) (namelessAll qs) = agreesAll ps qs
  | [], qs => by cases qs <;> rfl
  | ⟨name, type⟩ :: ps, [] => rfl
  | ⟨name, type⟩ :: ps, q :: qs => by
    simp [namelessAll, agreesAll, agrees_nameless type, agreesAll_nameless ps]

end

theorem join_nameless_of_not_list (h : a.kind ≠ .list) (b : Ty) :
    a.nameless.join b.nameless = (a.join b).map nameless := by
  rw [join_of_not_list h, join_of_not_list (by simpa using h), agrees_nameless]
  split <;> rfl

@[simp] theorem join_nameless : ∀ a b : Ty,
    a.nameless.join b.nameless = (a.join b).map nameless
  | list a, b => by
    cases b with
    | list b =>
      simp only [nameless, join, isResolved_nameless, join_nameless a b]
      split
      · rfl
      · split
        · rfl
        · cases a.join b <;> rfl
    | boolean | real | integer | text | function | unresolved => rfl
  | boolean, b | real, b | integer, b | text, b | unresolved, b | function _ _, b =>
    join_nameless_of_not_list (by simp [kind]) b

@[simp] theorem joinLists_nameless (a b : Ty) :
    a.nameless.joinLists b.nameless = (a.joinLists b).map nameless := by
  simp only [joinLists, element?_nameless, Option.isSome_map, join_nameless]
  split <;> rfl

end Ty

end Piecewise
