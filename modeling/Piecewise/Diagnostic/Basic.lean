import Piecewise.Source.Position
import Piecewise.Text.Quoted

/-!
# Faults and diagnostics

Everything that can be wrong with a source, a program or a run is a fault: a cause with the data
that its message names. A diagnostic is a fault at a place; only a missing entry function has no
place. The wording of every fault stands here.
-/

namespace Piecewise

/-- A cause of failure. -/
inductive Fault
  /-- No token starts with this character. -/
  | unrecognisedToken (token : String)
  /-- No form of expression starts, or goes on, with this token. -/
  | unexpectedToken (token : String)
  /-- The grammar asks for something else here. -/
  | unexpectedTokenBecause (token message : String)
  /-- A number token that writes no number. -/
  | malformedNumber (token : String)
  /-- A name that names no primitive type. -/
  | unknownType (name : String)
  /-- A name declared twice in one scope. -/
  | duplicateIdentifier (name : String)
  /-- A name that no visible scope declares. -/
  | unknownIdentifier (name : String)
  /-- An expression of another type than its place asks for. -/
  | typeMismatch (expected received : String)
  /-- A call with another number of arguments than its function has parameters. -/
  | arityMismatch (function : String) (expected received : Nat)
  /-- An argument of another kind than its parameter, counted from zero. -/
  | argumentMismatch (function : String) (index : Nat) (expected received : String)
  /-- A builtin that needs an element was given an empty list. -/
  | emptyList (function : String)
  /-- The program has no function of the entry's name. -/
  | missingEntry (name : String)
  /-- A value of another kind than its place asks for. -/
  | wrongKind (expected found : String)
  /-- A call of a parameter, to which no declaration is bound. -/
  | unboundFunction (name : String)
  /-- A name without a value. -/
  | unboundIdentifier (name : String)
  /-- Two functions, or two types, were compared. -/
  | unsupportedEquality (kind : String)
  deriving DecidableEq

namespace Fault

def name : Fault → String
  | unrecognisedToken _ => "UnrecognisedToken"
  | unexpectedToken _ => "UnexpectedToken"
  | unexpectedTokenBecause _ _ => "UnexpectedTokenDetailed"
  | malformedNumber _ => "NumberParseError"
  | unknownType _ => "UnknownType"
  | duplicateIdentifier _ => "DuplicateIdentifier"
  | unknownIdentifier _ => "UnknownIdentifier"
  | typeMismatch _ _ => "TypeMismatch"
  | arityMismatch _ _ _ => "ArityMismatch"
  | argumentMismatch _ _ _ _ => "ArgumentTypeMismatch"
  | emptyList _ => "EmptyList"
  | missingEntry _ => "MissingEntryFunction"
  | wrongKind _ _ => "RuntimeTypeFault"
  | unboundFunction _ => "UnboundFunctionParameter"
  | unboundIdentifier _ => "UnboundIdentifier"
  | unsupportedEquality _ => "UnsupportedEquality"

def message : Fault → String
  | unrecognisedToken token => "unrecognised token: " ++ Text.quoted token
  | unexpectedToken token => "unexpected token: " ++ Text.quoted token
  | unexpectedTokenBecause token message =>
    "unexpected token (" ++ message ++ "): " ++ Text.quoted token
  | malformedNumber token => "error parsing number: " ++ Text.quoted token
  | unknownType name => "unknown type " ++ name ++ " found"
  | duplicateIdentifier name =>
    "identifier " ++ Text.quoted name ++ " is already defined in this scope"
  | unknownIdentifier name => "identifier " ++ Text.quoted name ++ " is not declared in this scope"
  | typeMismatch expected received =>
    "types in expression are mismatched: expected " ++ expected ++ ", received " ++ received
  | arityMismatch function expected received =>
    Text.quoted function ++ " expects " ++ toString expected ++ " arguments, received " ++
      toString received
  | argumentMismatch function index expected received =>
    "argument " ++ toString index ++ " of " ++ Text.quoted function ++
      " does not match parameter: expected " ++ expected ++ ", received " ++ received
  | emptyList function => Text.quoted function ++ " applied to an empty list"
  | missingEntry name => "no function named " ++ Text.quoted name ++ " in the program"
  | wrongKind expected found =>
    "runtime value has the wrong shape: expected " ++ expected ++ ", found " ++ found
  | unboundFunction name =>
    "function-typed parameter " ++ Text.quoted name ++ " is not bound to a declaration"
  | unboundIdentifier name => "identifier " ++ Text.quoted name ++ " has no runtime value"
  | unsupportedEquality kind => "values of kind " ++ kind ++ " cannot be compared"

/-- Whether only a program that the checker should have refused can raise the fault. -/
def isInternal : Fault → Bool
  | wrongKind _ _ | unboundFunction _ | unboundIdentifier _ | unsupportedEquality _ => true
  | _ => false

/-- A hint for the reader, where the fault has one. Arguments are counted from one here. -/
def tip? : Fault → Option String
  | unrecognisedToken _ => none
  | unexpectedToken token => some ("Unexpected token: `" ++ token ++ "`")
  | unexpectedTokenBecause token message =>
    some ("Unexpected token: `" ++ token ++ "`, " ++ message)
  | malformedNumber token => some ("Invalid number: `" ++ token ++ "`")
  | unknownType name =>
    some ("Unknown type `" ++ name ++ "`, expected one of bool, real, int, string")
  | duplicateIdentifier name =>
    some ("Identifier `" ++ name ++ "` is already defined in this scope")
  | unknownIdentifier name => some ("Identifier `" ++ name ++ "` is not declared in this scope")
  | typeMismatch expected received =>
    some ("Expected type `" ++ expected ++ "`, received `" ++ received ++ "`")
  | arityMismatch function expected received =>
    some ("`" ++ function ++ "` expects " ++ toString expected ++ " arguments, received " ++
      toString received)
  | argumentMismatch function index expected received =>
    some ("Argument " ++ toString (index + 1) ++ " of `" ++ function ++ "` should be `" ++
      expected ++ "`, received `" ++ received ++ "`")
  | emptyList function => some ("`" ++ function ++ "` was applied to an empty list")
  | missingEntry name =>
    some ("Declare a function named `" ++ name ++ "` or choose another entry with --entry")
  | wrongKind _ _ | unboundFunction _ | unboundIdentifier _ | unsupportedEquality _ =>
    some "This is an interpreter bug: the program passed type checking"

end Fault

structure Diagnostic where
  fault : Fault
  position : Option Position
  deriving DecidableEq

def Fault.at (fault : Fault) (p : Position) : Diagnostic := ⟨fault, some p⟩

def Diagnostic.headline (d : Diagnostic) : String :=
  match d.position with
  | some p =>
    d.fault.name ++ " @ line " ++ toString p.line ++ ":" ++ toString p.column ++ ": " ++
      d.fault.message
  | none => d.fault.name ++ ": " ++ d.fault.message

end Piecewise
