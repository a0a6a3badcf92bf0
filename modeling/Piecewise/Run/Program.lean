import Piecewise.Evaluation.Program
import Piecewise.Grammar.Program
import Piecewise.Run.Config
import Piecewise.Typing.Program

/-!
# From sources to a value

Sources are read one after the other and make one program, the prelude first where it is asked
for. The program is declared, checked, and run from its entry.
-/

namespace Piecewise

namespace Source

/-- The types of the builtins, as declarations. -/
def prelude : Source where
  name := "<prelude>"
  text :=
    "// List primitives. The evaluator runs `head` and `tail` natively; these\n" ++
    "// declarations only give the checker their signatures.\n" ++
    "\n" ++
    "fn head(xs: [real]) -> real = head(xs);\n" ++
    "\n" ++
    "fn tail(xs: [real]) -> [real] = xs;\n"

end Source

namespace Program

/-- A program followed by those of further sources. -/
def extendWith (p : Program) : List Source → Except Diagnostic Program
  | [] => .ok p
  | source :: rest => do extendWith (p.append (← ofSource source)) rest

/-- The program of several sources. Without any, it is the program of an empty prelude. -/
def ofSources : List Source → Except Diagnostic Program
  | [] => ofSource { Source.prelude with text := "" }
  | source :: rest => do return (← (← ofSource source).extendWith rest).numberedFrom 0

end Program

/-- The sources of a run of one source: the prelude first, unless it is not wanted. -/
def Config.sources (c : Config) (source : Source) : List Source :=
  if c.prelude then [Source.prelude, source] else [source]

namespace Program

/-- The scopes of a program in which every function has its type. -/
def check (p : Program) (scopes : Scopes) : Except Diagnostic Scopes :=
  match Typing.checkProgram p (.initial scopes) with
  | .ok _ s => .ok s.scopes
  | .error d _ => .error d

/-- The entry function of a program in its scopes. -/
def entry (name : String) (scopes : Scopes) : Except Diagnostic Declaration :=
  match (scopes.global.get? name).bind Symbol.declaration? with
  | some d => .ok d
  | none => .error ⟨.missingEntry name, none⟩

end Program

/-- The value of an entry function in the given scopes. -/
def Declaration.run (d : Declaration) (mode : ListEquality) (depth : Nat) (scopes : Scopes) :
    Except Evaluation.Halt Value :=
  match Evaluation.runEntry mode depth d (.initial scopes) with
  | .ok value _ => .ok value
  | .error halt _ => .error halt

namespace Program

/-- The scopes of a program and its entry function, ready to run. -/
def prepare (p : Program) (c : Config) : Except Diagnostic (Scopes × Declaration) := do
  let scopes ← p.check (← Scopes.ofProgram p)
  return (scopes, ← entry c.entry scopes)

/-- The value of a program, with calls nested less deeply than the depth. -/
def run (p : Program) (c : Config) (depth : Nat) : Except Evaluation.Halt Value := do
  let (scopes, d) ← (p.prepare c).mapError .fault
  d.run c.equality depth scopes

end Program

def runSources (sources : List Source) (c : Config) (depth : Nat) :
    Except Evaluation.Halt Value := do
  let program ← (Program.ofSources sources).mapError .fault
  program.run c depth

end Piecewise
