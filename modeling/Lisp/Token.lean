import Lisp.Source.Span

/-!
# Tokens

The token classes of the surface syntax. An atom keeps its text: whether it is a number, a truth
value, nil or a symbol is decided when an expression is read from it.
-/

set_option autoImplicit false

namespace Lisp

inductive Bracket where
  | round
  | square
  | curly
  deriving DecidableEq, Repr, Inhabited

namespace Bracket

def opener : Bracket → Char
  | round => '('
  | square => '['
  | curly => '\x7b'

def closer : Bracket → Char
  | round => ')'
  | square => ']'
  | curly => '\x7d'

def ofOpener? (c : Char) : Option Bracket :=
  if c = '(' then some round
  else if c = '[' then some square
  else if c = '\x7b' then some curly
  else none

def ofCloser? (c : Char) : Option Bracket :=
  if c = ')' then some round
  else if c = ']' then some square
  else if c = '\x7d' then some curly
  else none

end Bracket

/-- The marks that stand before an expression and wrap it in a form. -/
inductive Marker where
  | quote
  | quasiquote
  | unquote
  | splice
  deriving DecidableEq, Repr, Inhabited

namespace Marker

def text : Marker → String
  | quote => "'"
  | quasiquote => "`"
  | unquote => "~"
  | splice => "~@"

/-- The symbol at the head of the form that the mark stands for. -/
def keyword : Marker → String
  | quote => "quote"
  | quasiquote => "quasiquote"
  | unquote => "unquote"
  | splice => "splice-unquote"

end Marker

/-- A token without its place. The texts of strings and atoms are those of the source, the quotes
of a string included. -/
inductive TokenKind where
  | opening (bracket : Bracket)
  | closing (bracket : Bracket)
  | mark (marker : Marker)
  | string (text : String)
  | atom (text : String)
  deriving DecidableEq, Repr, Inhabited

namespace TokenKind

def text : TokenKind → String
  | opening b => b.opener.toString
  | closing b => b.closer.toString
  | mark m => m.text
  | string s => s
  | atom s => s

def isCloser : TokenKind → Bool
  | closing _ => true
  | _ => false

end TokenKind

/-- A token and the bytes that it occupies. -/
structure Token where
  kind : TokenKind
  span : Span
  deriving DecidableEq, Repr, Inhabited

end Lisp
