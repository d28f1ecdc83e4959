import Lisp.Error.Parse
import Lisp.Source.Place

/-!
# Reports

What a reader is told about a parse error: a headline, the place in the text, the characters that
are marked there, and a label for them.
-/

set_option autoImplicit false

namespace Lisp

/-- The characters of a text from index `start` up to but excluding `stop`. -/
structure CharRange where
  start : Nat
  stop : Nat
  deriving DecidableEq, Repr

/-- A report of an error in the text with the given name. -/
structure Report where
  headline : String
  name : String
  place : Place
  marked : CharRange
  label : String
  deriving DecidableEq, Repr

/-- The characters that fill the bytes of a span. An end inside a character or beyond the text
counts as an index of characters itself. -/
def Span.charRange (s : Span) (text : List Char) : CharRange where
  start := (charIndex? text s.start).getD s.start
  stop := (charIndex? text s.stop).getD s.stop

namespace ParseError

/-- What kind of error it is, for the headline of a report. -/
def headline : ParseError → String
  | unexpectedToken found _ => "Unexpected token: " ++ found.kind.text
  | unexpectedEnd _ => "Unexpected end of input"
  | unterminatedString _ => "Unterminated string literal"
  | invalidHash _ _ => "Invalid hash literal"

/-- What is said about the place of the error. -/
def label : ParseError → String
  | unexpectedToken _ expected => "Expected " ++ expected.text
  | unexpectedEnd expected => "Expected " ++ expected.text
  | unterminatedString _ => "This string is missing its closing quote"
  | invalidHash _ fault => fault.text

/-- The characters that an error in a text is about: those of its span, or none at the end of the
text. -/
def charRange (e : ParseError) (text : List Char) : CharRange :=
  match e.span? with
  | some span => span.charRange text
  | none => ⟨text.length, text.length⟩

def report (e : ParseError) (name source : String) : Report where
  headline := "Error: " ++ e.headline
  name := name
  place := Place.ofCharIndex source.toList (e.charRange source.toList).start
  marked := e.charRange source.toList
  label := e.label

end ParseError

def Report.placeText (r : Report) : String :=
  r.name ++ ":" ++ toString r.place.line ++ ":" ++ toString r.place.column

/-- A part of what a command writes to its error stream. -/
inductive Notice where
  | text (text : String)
  | report (report : Report)
  deriving DecidableEq, Repr

/-- What a command leaves behind: its exit code, its output, and its notices. -/
structure CommandResult where
  code : Nat
  output : String
  notices : List Notice
  deriving DecidableEq, Repr

end Lisp
