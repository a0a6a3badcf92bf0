import Piecewise.Diagnostic.Basic
import Piecewise.Text.Blank
import Piecewise.Text.Lines

/-!
# Reports

A report shows a diagnostic with its tip, its place and the line it points at. The line is
printed without the spaces and tabs it starts with and without the white space at its end, and a
caret stands under the column of the place, at the end of a run of dashes.
-/

namespace Piecewise

/-- Spaces and tabs, which a report cuts from the front of a line. -/
def isIndent (c : Char) : Bool := c = ' ' || c = '\t'

/-- The text at the right end of a field of the given width. -/
def padLeft (fill : Char) (width : Nat) (text : List Char) : List Char :=
  List.replicate (width - text.length) fill ++ text

/-- The bar above the line, the line with its number, and the caret below. -/
def excerpt (p : Position) (line : List Char) : List (List Char) :=
  let number := (toString p.line).toList
  let bar := padLeft ' ' (number.length + 2) ['|']
  let shown := line.dropWhile isIndent
  let indent := line.length - shown.length
  [bar,
   number ++ ' ' :: '|' :: ' ' :: Text.trimEnd shown,
   bar ++ ' ' :: padLeft '-' (max 1 (p.column - indent)) ['^']]

/-- The line that a place points at, in the first source of its file name. -/
def Position.line? (p : Position) (sources : List Source) : Option (List Char) :=
  (sources.find? fun source => source.name = p.file).bind fun source =>
    Text.line? source.text p.line

/-- The whole report, every line with its newline. -/
def Diagnostic.report (d : Diagnostic) (sources : List Source) : String :=
  let title :=
    match d.fault.tip? with
    | none => "Error: " ++ d.fault.name ++ "\n"
    | some tip => "Error: " ++ d.fault.name ++ " (" ++ tip ++ ")\n"
  let head := title ++ d.fault.message ++ "\n"
  match d.position with
  | none => head
  | some p =>
    let place :=
      "-> " ++ p.file ++ ":" ++ toString p.line ++ ":" ++ toString p.column ++ "\n"
    match p.line? sources with
    | none => head ++ place
    | some line =>
      head ++ place ++ String.ofList ((excerpt p line).flatMap fun row => row ++ ['\n'])

end Piecewise
