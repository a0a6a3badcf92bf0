import Piecewise.Value.Equality

/-!
# Options of a run

The words of a command line are flags and file names in any order. A flag with a value takes the
next word, whatever it looks like. A word that starts with two dashes is never a file name.
-/

namespace Piecewise

structure Config where
  /-- The function whose value is asked for. -/
  entry : String
  /-- Whether the prelude comes before the files. -/
  prelude : Bool
  equality : ListEquality
  /-- File names in the order given. -/
  files : List String
  deriving DecidableEq

inductive ConfigError
  | missingValue (flag : String)
  | unknownFlag (flag : String)
  | noFiles
  | helpRequested
  deriving DecidableEq

namespace ConfigError

def name : ConfigError → String
  | missingValue _ => "MissingValue"
  | unknownFlag _ => "UnknownFlag"
  | noFiles => "NoInputFiles"
  | helpRequested => "HelpRequested"

def message : ConfigError → String
  | missingValue flag => "flag " ++ flag ++ " expects a value"
  | unknownFlag flag => "unknown flag " ++ flag
  | noFiles => "no input files given"
  | helpRequested => "help requested"

end ConfigError

namespace Config

def usage : String :=
  "usage: dfunc [--entry NAME] [--no-prelude] [--structural-equality] FILE..."

def initial : Config := ⟨"main", true, .identityChecked, []⟩

def looksLikeFlag (word : String) : Bool := "--".toList.isPrefixOf word.toList

/-- The options after reading further words. -/
def read (c : Config) : List String → Except ConfigError Config
  | [] => .ok c
  | ["--entry"] => .error (.missingValue "--entry")
  | "--entry" :: name :: rest => read { c with entry := name } rest
  | word :: rest =>
    if word = "--no-prelude" then read { c with prelude := false } rest
    else if word = "--structural-equality" then read { c with equality := .structural } rest
    else if word = "-h" || word = "--help" then .error .helpRequested
    else if looksLikeFlag word then .error (.unknownFlag word)
    else read { c with files := c.files ++ [word] } rest

/-- The options that the words of a command line give. At least one file is needed. -/
def ofWords (words : List String) : Except ConfigError Config := do
  let c ← initial.read words
  if c.files.isEmpty then .error .noFiles else .ok c

end Config

end Piecewise
