import Lisp.Error.Eval
import Lisp.Text.Utf8

/-!
# Consoles

The three streams that a program talks to. Text that is written goes into a buffer of the store;
a closed sink refuses it. Input is consumed line by line.
-/

set_option autoImplicit false

namespace Lisp

abbrev BufferId := Nat

abbrev ConsoleId := Nat

inductive Sink where
  | buffer (id : BufferId)
  | closed
  deriving DecidableEq, Repr, Inhabited

/-- An input stream and two output streams, one of them for diagnostics. -/
structure Console where
  input : List Text.Item
  output : Sink
  diagnostic : Sink
  deriving Inhabited

namespace Console

/-- A line without the line feeds and carriage returns at its end. -/
def trimLine (line : String) : String :=
  .ofList (line.toList.reverse.dropWhile fun c => c = '\n' || c = '\r').reverse

/-- The outcome of reading a line: the line, nothing at the end of the input, or a failure. -/
abbrev LineResult := Except StreamError (Option String)

/-- Takes the first line off an input stream. A line that is not text fails, and is taken off all
the same. -/
def takeLine (input : List Text.Item) : LineResult × List Text.Item :=
  if input.isEmpty then (.ok none, [])
  else
    let (line, rest) := Text.splitLine input
    match Text.ofItems? line with
    | some text => (.ok (some (trimLine text)), rest)
    | none => (.error .malformed, rest)

end Console

end Lisp
