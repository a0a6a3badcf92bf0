/-!
# Types

The types of the language, and how messages show them. `unresolved` marks a function whose type is
still to be found, and is the element type of the empty list.
-/

namespace Piecewise

structure Parameter (α : Type) where
  name : String
  type : α
  deriving DecidableEq

/-- A type. The parameters of a function type keep their names; a type written without names has
empty ones. -/
inductive Ty
  | boolean
  | real
  | integer
  | text
  | list (element : Ty)
  | function (parameters : List (Parameter Ty)) (output : Ty)
  | unresolved

/-- The outermost shape of a type. -/
inductive Ty.Kind
  | boolean
  | real
  | integer
  | text
  | list
  | function
  | unresolved
  deriving DecidableEq

namespace Ty

def kind : Ty → Kind
  | boolean => .boolean
  | real => .real
  | integer => .integer
  | text => .text
  | list _ => .list
  | function _ _ => .function
  | unresolved => .unresolved

/-- Whether the type is known, at least on the outside. -/
def isResolved : Ty → Bool
  | unresolved => false
  | _ => true

def element? : Ty → Option Ty
  | list element => some element
  | _ => none

mutual

/-- A type in messages: names of parameters are left out. -/
def shown : Ty → String
  | boolean => "bool"
  | real => "real"
  | integer => "int"
  | text => "string"
  | list element => "[" ++ element.shown ++ "]"
  | function parameters output =>
    "(" ++ ", ".intercalate (shownAll parameters) ++ ") -> " ++ output.shown
  | unresolved => "?"

def shownAll : List (Parameter Ty) → List String
  | [] => []
  | ⟨_, type⟩ :: rest => type.shown :: shownAll rest

end

mutual

/-- Whether two types are the same, names of parameters included. -/
def same : Ty → Ty → Bool
  | boolean, boolean => true
  | real, real => true
  | integer, integer => true
  | text, text => true
  | list a, list b => same a b
  | function ps a, function qs b => sameAll ps qs && same a b
  | unresolved, unresolved => true
  | _, _ => false

/-- Whether two lists of parameters are the same. -/
def sameAll : List (Parameter Ty) → List (Parameter Ty) → Bool
  | [], [] => true
  | ⟨name, type⟩ :: ps, q :: qs => name = q.name && same type q.type && sameAll ps qs
  | _, _ => false

end

mutual

theorem same_iff_eq : ∀ a b : Ty, same a b = true ↔ a = b
  | list a, b => by cases b <;> simp [same, same_iff_eq a]
  | function ps a, b => by
    cases b <;> simp [same, sameAll_iff_eq ps, same_iff_eq a]
  | boolean, b => by cases b <;> simp [same]
  | real, b => by cases b <;> simp [same]
  | integer, b => by cases b <;> simp [same]
  | text, b => by cases b <;> simp [same]
  | unresolved, b => by cases b <;> simp [same]

theorem sameAll_iff_eq : ∀ ps qs : List (Parameter Ty), sameAll ps qs = true ↔ ps = qs
  | [], qs => by cases qs <;> simp [sameAll]
  | ⟨name, type⟩ :: ps, [] => by simp [sameAll]
  | ⟨name, type⟩ :: ps, ⟨name', type'⟩ :: qs => by
    simp [sameAll, same_iff_eq type, sameAll_iff_eq ps]

end

instance : DecidableEq Ty := fun a b =>
  decidable_of_iff (same a b = true) (same_iff_eq a b)

end Ty

end Piecewise
