import Piecewise.Diagnostic.Report
import Piecewise.Run.Program

/-!
# The command line

What the program prints, and how it ends: with 0 after a value or the requested help, with 1 after
a file that cannot be read or a diagnostic, with 2 after words that give no options.
-/

namespace Piecewise

structure Answer where
  exitCode : Nat
  output : String
  errorOutput : String
  deriving DecidableEq

namespace CommandLine

/-- How deeply calls may nest; the machine gives out long before. -/
def depth : Nat := 1000000000

def printed (line : String) : Answer := ⟨0, line ++ "\n", ""⟩

def failed (exitCode : Nat) (text : String) : Answer := ⟨exitCode, "", text⟩

/-- The answer to words that give no options. -/
def refused : ConfigError → Answer
  | .helpRequested => printed Config.usage
  | error => failed 2 ("error: " ++ error.message ++ "\n" ++ Config.usage ++ "\n")

/-- Files read in order up to the first that cannot be read. What cannot be read is an answer. -/
def readAll {m : Type → Type} [Monad m] (readFile : String → m (Except String String)) :
    List String → m (Except Answer (List Source))
  | [] => return .ok []
  | name :: rest => do
    match ← readFile name with
    | .error reason =>
      return .error (failed 1 ("error: failed to read " ++ name ++ ": " ++ reason ++ "\n"))
    | .ok text =>
      return (← readAll readFile rest).map fun sources => ⟨name, text⟩ :: sources

def runAnswer (sources : List Source) (c : Config) (depth : Nat) : Answer :=
  match runSources sources c depth with
  | .ok value => printed value.shown
  | .error (.fault d) => failed 1 (d.report sources)
  | .error .tooDeep => failed 1 "error: calls nest too deeply\n"

/-- The answer to a command line, given a way to read files. -/
def answer {m : Type → Type} [Monad m] (readFile : String → m (Except String String))
    (depth : Nat) (words : List String) : m Answer := do
  match Config.ofWords words with
  | .error error => return refused error
  | .ok c =>
    match ← readAll readFile c.files with
    | .error failure => return failure
    | .ok files =>
      return runAnswer (if c.prelude then Source.prelude :: files else files) c depth

end CommandLine

end Piecewise
