import Piecewise.Text.Blank
import Piecewise.Token.Kind

/-!
# Lexemes

A source is cut into words, numbers, texts, marks, runs of white space and comments. Each class
of lexeme says how much of the front of a text it takes. The classes are tried in a fixed order
in which no class takes less than a later one would: a comment comes before the slash, and a mark
before the marks that begin it.
-/

namespace Piecewise

inductive Lexeme
  | word
  | number
  | blank
  | text
  | comment
  | mark (kind : TokenKind) (spelling : String)
  deriving DecidableEq

namespace Lexeme

/-- A word starts with an ASCII letter or an underscore. -/
def startsWord (c : Char) : Bool := c.isAlpha || c = '_'

/-- A word goes on with ASCII letters, digits and underscores. -/
def continuesWord (c : Char) : Bool := c.isAlphanum || c = '_'

/-- The longest run of matching characters at the front, and what follows it. -/
def spanWhile (p : Char → Bool) (cs : List Char) : List Char × List Char :=
  (cs.takeWhile p, cs.dropWhile p)

/-- Digits, and a fraction if a point with a digit behind it follows. -/
def splitNumber? (cs : List Char) : Option (List Char × List Char) :=
  match spanWhile Char.isDigit cs with
  | ([], _) => none
  | (whole, '.' :: rest) =>
    match spanWhile Char.isDigit rest with
    | ([], _) => some (whole, '.' :: rest)
    | (fraction, rest) => some (whole ++ '.' :: fraction, rest)
  | (whole, rest) => some (whole, rest)

/-- The rest of a text literal after its opening quote, up to and with its closing quote. A
backslash belongs with the character after it, which may not be a newline. -/
def splitTextBody? : List Char → Option (List Char × List Char)
  | [] => none
  | '"' :: rest => some (['"'], rest)
  | '\\' :: c :: rest =>
    if c = '\n' then none
    else (splitTextBody? rest).map fun (taken, left) => ('\\' :: c :: taken, left)
  | c :: rest =>
    if c = '\\' then none
    else (splitTextBody? rest).map fun (taken, left) => (c :: taken, left)

/-- What the class takes from the front of a text, and what it leaves. -/
def split? : Lexeme → List Char → Option (List Char × List Char)
  | word, c :: rest => if startsWord c then some (spanWhile continuesWord (c :: rest)) else none
  | number, cs => splitNumber? cs
  | blank, c :: rest => if Text.isBlank c then some (spanWhile Text.isBlank (c :: rest)) else none
  | text, '"' :: rest =>
    (splitTextBody? rest).map fun (taken, left) => ('"' :: taken, left)
  | comment, '/' :: '/' :: rest =>
    let (taken, left) := spanWhile (· ≠ '\n') rest
    some ('/' :: '/' :: taken, left)
  | mark _ spelling, cs =>
    (spelling.toList.isPrefixOf? cs).map fun left => (spelling.toList, left)
  | _, _ => none

/-- The classes in the order in which they are tried. -/
def table : List Lexeme :=
  [word, number, blank, text, comment] ++ TokenKind.marks.map fun (kind, spelling) =>
    mark kind spelling

/-- The first class that takes something from the front of a text, with what it takes and what
it leaves. -/
def first? (cs : List Char) : Option (Lexeme × List Char × List Char) :=
  table.findSome? fun lexeme => (lexeme.split? cs).map fun parts => (lexeme, parts)

/-- What a backslash pair stands for, where it stands for something. -/
def unescape? : Char → Option Char
  | 'n' => some '\n'
  | 't' => some '\t'
  | '\\' => some '\\'
  | '"' => some '"'
  | _ => none

/-- The text that the inside of a literal stands for. A backslash looks at the character after it:
if the two stand for something, both are used up, and if not, only the backslash is, which stays. -/
def decode : List Char → List Char
  | [] => []
  | '\\' :: c :: rest =>
    match unescape? c with
    | some d => d :: decode rest
    | none => '\\' :: decode (c :: rest)
  | c :: rest => c :: decode rest

/-- The kind and the value of the token that a lexeme makes; white space and comments make
none. -/
def token? (lexeme : Lexeme) (taken : List Char) : Option (TokenKind × String) :=
  match lexeme with
  | word =>
    let spelling := String.ofList taken
    some ((TokenKind.reserved? spelling).getD .identifier, spelling)
  | number => some (.number, String.ofList taken)
  | text => some (.text, String.ofList (decode taken.tail.dropLast))
  | mark kind spelling => some (kind, spelling)
  | blank | comment => none

end Lexeme

end Piecewise
