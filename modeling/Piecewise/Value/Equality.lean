import Piecewise.Diagnostic.Basic
import Piecewise.Value.Basic

/-!
# The operator `==`

Values of different kinds are never equal. Two functions, or two types, cannot be compared, except
as elements of lists. Lists are equal when they have the same length and equal elements in order.
An element that is a list itself must, when identity is checked, also be the very same list as its
counterpart: then `[[1]] == [[1]]` does not hold, while a list equals itself. A real that is not a
number differs from itself, but as elements two such reals are equal.
-/

namespace Piecewise

/-- How `==` compares list elements that are lists themselves. -/
inductive ListEquality
  /-- Equal, and the very same list. -/
  | identityChecked
  /-- Equal element by element. -/
  | structural
  deriving DecidableEq, Inhabited

namespace Value

/-- Values that are neither lists nor functions nor types compare by value. -/
def scalarsEqual : Value → Value → Bool
  | boolean a, boolean b => a = b
  | real a, real b => a == b
  | text a, text b => a = b
  | _, _ => false

mutual

def elementsEqual (mode : ListEquality) : Value → Value → Bool
  | list i a, list j b => listsEqual mode a b && (mode = .structural || i = j)
  | function d, function e => d.number = e.number
  | type a, type b => a = b
  | real a, real b => a == b || (a.isNaN && b.isNaN)
  | a, b => scalarsEqual a b

/-- Whether two lists have the same length and equal elements in order. -/
def listsEqual (mode : ListEquality) : List Value → List Value → Bool
  | [], [] => true
  | a :: as, b :: bs => elementsEqual mode a b && listsEqual mode as bs
  | _, _ => false

end

/-- The operator `==`. -/
def equal (mode : ListEquality) (place : Position) : Value → Value → Except Diagnostic Bool
  | list _ a, list _ b => .ok (listsEqual mode a b)
  | function d, function _ =>
    .error ((Fault.unsupportedEquality (function d).kindName).at place)
  | type a, type _ => .error ((Fault.unsupportedEquality (type a).kindName).at place)
  | a, b => .ok (scalarsEqual a b)

mutual

/-- Whether two values are the same in depth, wherever their lists are allocated. Here a real
that is not a number differs from itself at every depth. -/
def deepEqual : Value → Value → Bool
  | list _ a, list _ b => deepEqualAll a b
  | function d, function e => d.number = e.number
  | type a, type b => a = b
  | a, b => scalarsEqual a b

/-- Whether two lists of values are the same in depth. -/
def deepEqualAll : List Value → List Value → Bool
  | [], [] => true
  | a :: as, b :: bs => deepEqual a b && deepEqualAll as bs
  | _, _ => false

end

end Value

end Piecewise
