import Lisp.Dict

/-!
# Keywords

The special forms. A list headed by the name of one of them is evaluated by a rule of its own;
names are compared before any binding is looked up, so a keyword cannot be redefined.
-/

set_option autoImplicit false

namespace Lisp

inductive Keyword where
  | quote
  | quasiquote
  | conditional
  | define
  | assign
  | lambda
  | begin
  | doBlock
  | letBlock
  | evalText
  | readText
  | defineMacro
  | expandMacro
  | synonym
  deriving DecidableEq, Repr, Inhabited

namespace Keyword

def name : Keyword → String
  | quote => "quote"
  | quasiquote => "quasiquote"
  | conditional => "if"
  | define => "define"
  | assign => "set!"
  | lambda => "lambda"
  | begin => "begin"
  | doBlock => "do"
  | letBlock => "let"
  | evalText => "eval"
  | readText => "read"
  | defineMacro => "defmacro!"
  | expandMacro => "macroexpand"
  | synonym => "alias"

def all : List Keyword :=
  [quote, quasiquote, conditional, define, assign, lambda, begin, doBlock, letBlock, evalText,
    readText, defineMacro, expandMacro, synonym]

def ofName? (text : String) : Option Keyword :=
  all.find? fun keyword => keyword.name = text

def names : List String :=
  (Dict.ofList (all.map fun keyword => (keyword.name, ()))).keys

end Keyword

end Lisp
