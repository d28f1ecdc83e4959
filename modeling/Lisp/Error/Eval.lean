import Lisp.Error.Parse

/-!
# Evaluation errors

The causes for which an evaluation fails, and the wording of each. An evaluation error is carried
by an ordinary value, so it passes through a program like any other.
-/

set_option autoImplicit false

namespace Lisp

/-- The number of evaluations that may be under way within one another. -/
def maxDepth : Nat := 10000

inductive ArgumentCount where
  | just (count : Nat)
  | exactly (count : Nat)
  | atLeast (count : Nat)
  | twoOrThree
  | even
  | evenFromTwo
  deriving DecidableEq, Repr

def ArgumentCount.text : ArgumentCount → String
  | just n => toString n
  | exactly n => "exactly " ++ toString n
  | atLeast n => "at least " ++ toString n
  | twoOrThree => "2 or 3"
  | even => "an even number of"
  | evenFromTwo => "an even number (at least 2) of"

inductive FormFault where
  | restParameter
  | letBinding (shown : String)
  deriving DecidableEq, Repr

def FormFault.text : FormFault → String
  | restParameter => "'&' must be followed by exactly one parameter name"
  | letBinding shown => "let binding must be a (name value) pair, got " ++ shown

inductive StreamError where
  | closed
  | malformed
  deriving DecidableEq, Repr

def StreamError.message : StreamError → String
  | closed => "stream closed"
  | malformed => "stream did not contain valid UTF-8"

/-- The causes for which an evaluation fails. Parts of other values are kept as they are shown. -/
inductive EvalError where
  | notAProcedure (shown : String)
  | arity (form : String) (expected : ArgumentCount) (got : Nat)
  | notASymbol (form found : String)
  | invalidForm (fault : FormFault)
  | typeMismatch (context expected found : String)
  | notFound (name : String)
  | depthExceeded
  | parse (error : ParseError)
  | divisionByZero (operation : String)
  | badIndex (shown : String)
  | indexOutOfRange (shown : String) (length : Nat)
  | stream (operation : String) (error : StreamError)
  | raised (message : String)
  deriving DecidableEq, Repr

namespace EvalError

def message : EvalError → String
  | notAProcedure shown => "not a procedure: " ++ shown
  | arity form expected got =>
    "'" ++ form ++ "' expects " ++ expected.text ++ " arguments, got " ++ toString got
  | notASymbol form found => "'" ++ form ++ "' expects a symbol, got " ++ found
  | invalidForm fault => "invalid special form: " ++ fault.text
  | typeMismatch context expected found =>
    context ++ ": expected " ++ expected ++ ", got " ++ found
  | notFound name => "'" ++ name ++ "' not found in any enclosing scope"
  | depthExceeded => "maximum evaluation depth of " ++ toString maxDepth ++ " exceeded"
  | parse error => "parse error: " ++ error.message
  | divisionByZero operation => "Division by zero: (" ++ operation ++ " ... 0)"
  | badIndex shown => "nth: index must be a non-negative integer, got " ++ shown
  | indexOutOfRange shown length =>
    "nth: index " ++ shown ++ " out of range for list of length " ++ toString length
  | stream operation error => operation ++ ": " ++ error.message
  | raised message => message

end EvalError

end Lisp
