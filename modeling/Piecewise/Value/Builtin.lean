import Piecewise.Diagnostic.Basic
import Piecewise.Value.Basic

/-!
# Builtins

The functions named `head` and `tail` take lists apart. Whatever body a declaration of that name
has, a call of it runs the builtin.
-/

namespace Piecewise

/-- A function that the interpreter runs itself. -/
inductive Builtin
  | head
  | tail
  deriving DecidableEq

namespace Builtin

def ofName? : String → Option Builtin
  | "head" => some head
  | "tail" => some tail
  | _ => none

def name : Builtin → String
  | head => "head"
  | tail => "tail"

/-- The builtin on the values of a call. Only the first counts, and it must be a list. The head of
an empty list is a fault; its tail is that very list, where every other tail is a new list with
the allocation `fresh`. -/
def apply (b : Builtin) (fresh : Nat) (arguments : List Value) (place : Position) :
    Except Diagnostic Value :=
  match arguments, b with
  | .list _ (first :: _) :: _, head => .ok first
  | .list _ [] :: _, head => .error ((Fault.emptyList head.name).at place)
  | .list _ (_ :: rest) :: _, tail => .ok (.list fresh rest)
  | .list allocation [] :: _, tail => .ok (.list allocation [])
  | value :: _, _ => .error ((Fault.wrongKind "list" value.kindName).at place)
  | [], _ => .error ((Fault.wrongKind "list" "nothing").at place)

end Builtin

end Piecewise
