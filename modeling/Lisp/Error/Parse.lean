import Lisp.Token

/-!
# Parse errors

The ways in which a text fails to be an expression, and the wording of each.
-/

set_option autoImplicit false

namespace Lisp

/-- What would have been allowed where reading failed. -/
inductive Expectation where
  | expression
  | closer (bracket : Bracket)
  | operand (marker : Marker)
  deriving DecidableEq, Repr

def Expectation.text : Expectation → String
  | expression => "an expression"
  | closer b => "'" ++ b.closer.toString ++ "'"
  | operand m => "an expression after " ++ m.keyword

inductive HashFault where
  | oddCount
  | badKey (typeName : String)
  deriving DecidableEq, Repr

def HashFault.text : HashFault → String
  | oddCount => "expected an even number of forms"
  | badKey t => "keys must be strings or symbols, got " ++ t

/-- The causes for which reading an expression fails. -/
inductive ParseError where
  | unexpectedToken (found : Token) (expected : Expectation)
  | unexpectedEnd (expected : Expectation)
  | unterminatedString (span : Span)
  | invalidHash (span : Span) (fault : HashFault)
  deriving DecidableEq, Repr

namespace ParseError

/-- Where the error lies in the text; running out of text lies nowhere. -/
def span? : ParseError → Option Span
  | unexpectedToken found _ => some found.span
  | unexpectedEnd _ => none
  | unterminatedString span => some span
  | invalidHash span _ => some span

def message : ParseError → String
  | unexpectedToken found expected =>
    "unexpected token '" ++ found.kind.text ++ "' at " ++ found.span.text
      ++ ", expected " ++ expected.text
  | unexpectedEnd expected => "unexpected end of input, expected " ++ expected.text
  | unterminatedString span => "unterminated string literal at " ++ span.text
  | invalidHash span fault => "invalid hash literal at " ++ span.text ++ ": " ++ fault.text

end ParseError

end Lisp
