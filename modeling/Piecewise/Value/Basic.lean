import Piecewise.Decimal.Notation
import Piecewise.Program.Basic

/-!
# Values

What an expression evaluates to. Every number is a real. A list knows its allocation: two lists
with the same allocation are the very same list, and a list made anew gets an allocation of its
own. A function value is a declaration; a type stands in for a parameter with nothing bound to it.
-/

namespace Piecewise

/-- A value. -/
inductive Value
  | boolean (value : Bool)
  | real (value : Float)
  | text (value : String)
  | list (allocation : Nat) (elements : List Value)
  | function (declaration : Declaration)
  | type (t : Ty)

namespace Value

def kindName : Value → String
  | boolean _ => "bool"
  | real _ => "real"
  | text _ => "string"
  | list _ _ => "list"
  | function _ => "function"
  | type _ => "type"

def isFunction : Value → Bool
  | function _ => true
  | _ => false

mutual

/-- The value as printed: texts as they are, lists in brackets with commas between elements. -/
def shown : Value → String
  | boolean value => if value then "true" else "false"
  | real value => Decimal.text value
  | text value => value
  | list _ elements => "[" ++ ",".intercalate (shownAll elements) ++ "]"
  | function d => "<fn " ++ d.name ++ ">"
  | type t => "<type " ++ t.shown ++ ">"

def shownAll : List Value → List String
  | [] => []
  | value :: rest => value.shown :: shownAll rest

end

end Value

end Piecewise
