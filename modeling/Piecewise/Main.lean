import Piecewise.Run.CommandLine

/-!
# The program

The outer layer: it hands the words of the command line and a way to read files to the library,
and prints the answer.
-/

namespace Piecewise

/-- Why a file could not be read, in the words of the system. -/
def readFailure : IO.Error → String
  | .noFileOrDirectory _ code details => details ++ " (os error " ++ toString code ++ ")"
  | .inappropriateType _ code details => details ++ " (os error " ++ toString code ++ ")"
  | .permissionDenied _ code details => details ++ " (os error " ++ toString code ++ ")"
  | error => toString error

/-- The text of a file, if it can be read and is valid. -/
def readText (name : String) : IO (Except String String) := do
  try
    match String.fromUTF8? (← IO.FS.readBinFile name) with
    | some text => return .ok text
    | none => return .error "stream did not contain valid UTF-8"
  catch error => return .error (readFailure error)

end Piecewise

open Piecewise in
def main (words : List String) : IO UInt32 := do
  let answer ← CommandLine.answer readText CommandLine.depth words
  IO.print answer.output
  IO.eprint answer.errorOutput
  return answer.exitCode.toUInt32
