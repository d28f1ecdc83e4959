import Lisp.Number.Decimal
import Lisp.Text.Quoted
import Lisp.Value

/-!
# Printed values

A value is shown so that data can be read again: strings are quoted, lists stand in round and
hashes in curly brackets. Two values are the same when their types and their printed forms agree.
-/

set_option autoImplicit false

namespace Lisp

/-- The printed form of a procedure shows its parameters and not its body. -/
def Procedure.render {α : Type} (p : Procedure α) : String :=
  match p.callable with
  | .native operation => "#<native:" ++ operation.name ++ ">"
  | .closure c =>
    (if p.isMacro then "#<macro (" else "#<lambda (") ++ " ".intercalate c.parameters ++ ")>"

namespace Value

mutual

def render : Value → String
  | nil => "nil"
  | bool b => if b then "#t" else "#f"
  | number x => Number.toText x
  | string s => Text.quote s
  | char c => c.toString
  | symbol name => name
  | error cause => "Error: " ++ cause.message
  | list items => "(" ++ " ".intercalate (renderItems items) ++ ")"
  | hash name entries =>
    name.getD "" ++ "\x7b" ++ " ".intercalate (renderEntries entries) ++ "\x7d"
  | procedure p => p.render

def renderItems : List Value → List String
  | [] => []
  | v :: rest => render v :: renderItems rest

/-- The printed forms of the entries of a hash: each a quoted key and a value. -/
def renderEntries : List (String × Value) → List String
  | [] => []
  | (key, v) :: rest => (Text.quote key ++ " " ++ render v) :: renderEntries rest

end

/-- The text of a value without the quotes of a string: what programs print. -/
def plainText : Value → String
  | string s => s
  | v => v.render

/-- Equality of the language: nil and the empty list are the same, and otherwise two values are the
same when they have the same type and the same printed form. -/
def same (v w : Value) : Bool :=
  v.isNil && w.isNil || v.typeName = w.typeName && v.render = w.render

end Value

end Lisp
