import Piecewise.Diagnostic.Basic
import Piecewise.Value.Basic

/-!
# Scopes

A scope holds symbols in the order of their declaration, no two of one name. A symbol is a
function with its declaration or a parameter of a call; only a parameter is ever given a value.
-/

namespace Piecewise

/-- What a symbol stands for. -/
inductive Role
  | parameter
  | function (declaration : Declaration)

/-- A named entry of a scope. The type of a function is unresolved until the checker finds it. -/
structure Symbol where
  name : String
  type : Ty
  role : Role
  value : Option Value

namespace Symbol

/-- The symbol of a function whose type is still to be found. -/
def ofDeclaration (d : Declaration) : Symbol := ⟨d.name, .unresolved, .function d, none⟩

def parameter (name : String) (type : Ty) : Symbol := ⟨name, type, .parameter, none⟩

def declaration? (s : Symbol) : Option Declaration :=
  match s.role with
  | .parameter => none
  | .function d => some d

/-- The symbol with a value. A function is never bound to a symbol. -/
def bind (s : Symbol) (value : Value) : Symbol :=
  if value.isFunction then s else { s with value := some value }

/-- Whether the symbol has nothing that an expression could evaluate to. -/
def isUnbound (s : Symbol) : Bool := s.value.isNone && s.declaration?.isNone

end Symbol

/-- The symbols of one level, oldest first. -/
structure Scope where
  symbols : List Symbol

namespace Scope

def empty : Scope := ⟨[]⟩

def size (s : Scope) : Nat := s.symbols.length

def get? (s : Scope) (name : String) : Option Symbol :=
  s.symbols.find? fun symbol => symbol.name = name

/-- The scope with one more symbol, unless its name is taken. -/
def declare (s : Scope) (symbol : Symbol) (place : Position) : Except Diagnostic Scope :=
  match s.get? symbol.name with
  | some _ => .error ((Fault.duplicateIdentifier symbol.name).at place)
  | none => .ok ⟨s.symbols ++ [symbol]⟩

/-- The first symbol of a name changed, every other symbol as it was. -/
def modifyIn (name : String) (change : Symbol → Symbol) : List Symbol → List Symbol
  | [] => []
  | symbol :: rest =>
    if symbol.name = name then change symbol :: rest else symbol :: modifyIn name change rest

/-- The scope with the symbol of a name changed. -/
def modify (s : Scope) (name : String) (change : Symbol → Symbol) : Scope :=
  ⟨modifyIn name change s.symbols⟩

/-- The symbols as parameters of a function. -/
def parameters (s : Scope) : List (Parameter Ty) :=
  s.symbols.map fun symbol => ⟨symbol.name, symbol.type⟩

/-- Symbols bound to values in order, as far as there are both. -/
def bindIn : List Symbol → List Value → List Symbol
  | symbol :: rest, value :: values => symbol.bind value :: bindIn rest values
  | symbols, _ => symbols

theorem bindIn_nil (symbols : List Symbol) : bindIn symbols [] = symbols := by
  cases symbols <;> rfl

def bind (s : Scope) (values : List Value) : Scope := ⟨bindIn s.symbols values⟩

end Scope

end Piecewise
