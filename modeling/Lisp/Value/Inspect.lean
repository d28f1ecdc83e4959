import Lisp.Store
import Lisp.Text.Unprintable
import Lisp.Value.Printer

/-!
# Inspection

Descriptions of values, closures and frames for the people who work on programs. They name the type
of a value besides showing it, and show names as quoted text in which unprintable characters appear
as numbers.
-/

set_option autoImplicit false

namespace Lisp

/-- How a character of a name appears between quotes. -/
def Text.inspectChar (c : Char) : String :=
  if c = '"' then "\\\""
  else if c = '\\' then "\\\\"
  else if c = '\n' then "\\n"
  else if c = '\r' then "\\r"
  else if c = '\t' then "\\t"
  else if c = '\x00' then "\\0"
  else if isUnprintable c then
    "\\u\x7b" ++ String.ofList (Nat.toDigits 16 c.toNat) ++ "\x7d"
  else c.toString

def Text.inspect (name : String) : String :=
  "\"" ++ String.join (name.toList.map inspectChar) ++ "\""

def Text.inspectAll (names : List String) : String :=
  "[" ++ ", ".intercalate (names.map inspect) ++ "]"

def Value.inspect (v : Value) : String :=
  v.typeName ++ ":" ++ v.render

/-- The parameters and the body of a closure. -/
def Closure.inspect (c : Closure Value) : String :=
  "Closure \x7b params: " ++ Text.inspectAll c.parameters ++ ", body: " ++ c.body.inspect
    ++ ", .. \x7d"

/-- The names that a frame itself binds, and whether another frame encloses it. -/
def Store.inspect (s : Store) (f : FrameId) : String :=
  let enclosed := (s.frames[f]?.bind Frame.outer).isSome
  "Environment \x7b bindings: " ++ Text.inspectAll (s.bindingsOf f).keys ++ ", has_outer: "
    ++ (if enclosed then "true" else "false") ++ " \x7d"

end Lisp
