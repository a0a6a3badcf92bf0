/-!
# Kinds of tokens

A token is a number, a text, an identifier, a reserved word or a mark; the end of a source counts
as a token too. Reserved words and marks are always spelled the same way.
-/

namespace Piecewise

inductive TokenKind
  | eof
  | number
  | text
  | identifier
  | openBracket
  | closeBracket
  | openCurly
  | closeCurly
  | openParen
  | closeParen
  | assignment
  | equals
  | fatArrow
  | arrow
  | less
  | lessEquals
  | greater
  | greaterEquals
  | semicolon
  | colon
  | comma
  | plusPlus
  | plus
  | dash
  | slash
  | star
  | percent
  | caret
  | fn
  | ifWord
  | thenWord
  | elseWord
  | andWord
  | orWord
  | notWord
  | trueWord
  | falseWord
  deriving DecidableEq, Inhabited

namespace TokenKind

def name : TokenKind → String
  | eof => "EOF"
  | number => "Number"
  | text => "String"
  | identifier => "Identifier"
  | openBracket => "OpenBracket"
  | closeBracket => "CloseBracket"
  | openCurly => "OpenCurly"
  | closeCurly => "CloseCurly"
  | openParen => "OpenParen"
  | closeParen => "CloseParen"
  | assignment => "Assignment"
  | equals => "Equals"
  | fatArrow => "FatArrow"
  | arrow => "Arrow"
  | less => "Less"
  | lessEquals => "LessEquals"
  | greater => "Greater"
  | greaterEquals => "GreaterEquals"
  | semicolon => "Semicolon"
  | colon => "Colon"
  | comma => "Comma"
  | plusPlus => "PlusPlus"
  | plus => "Plus"
  | dash => "Dash"
  | slash => "Slash"
  | star => "Star"
  | percent => "Percent"
  | caret => "Caret"
  | fn => "Fn"
  | ifWord => "If"
  | thenWord => "Then"
  | elseWord => "Else"
  | andWord => "And"
  | orWord => "Or"
  | notWord => "Not"
  | trueWord => "True"
  | falseWord => "False"

/-- The marks and their spellings, each before the marks that begin it. -/
def marks : List (TokenKind × String) :=
  [(openBracket, "["), (closeBracket, "]"), (openCurly, "\x7b"), (closeCurly, "\x7d"),
   (openParen, "("), (closeParen, ")"), (equals, "=="), (fatArrow, "=>"), (assignment, "="),
   (lessEquals, "<="), (less, "<"), (greaterEquals, ">="), (greater, ">"), (semicolon, ";"),
   (colon, ":"), (comma, ","), (plusPlus, "++"), (arrow, "->"), (plus, "+"), (dash, "-"),
   (slash, "/"), (star, "*"), (percent, "%"), (caret, "^")]

def words : List (TokenKind × String) :=
  [(fn, "fn"), (ifWord, "if"), (thenWord, "then"), (elseWord, "else"), (andWord, "and"),
   (orWord, "or"), (notWord, "not"), (trueWord, "true"), (falseWord, "false")]

def all : List TokenKind :=
  [eof, number, text, identifier] ++ marks.map Prod.fst ++ words.map Prod.fst

def ofName? (name : String) : Option TokenKind :=
  all.find? fun kind => kind.name = name

/-- The kind of a reserved word, `none` for every other word. -/
def reserved? (word : String) : Option TokenKind :=
  (words.find? fun entry => entry.2 = word).map Prod.fst

end TokenKind

end Piecewise
