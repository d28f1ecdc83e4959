import Lisp.Eval

/-!
# Programs

A program is a text of expressions that are evaluated in order, so that each sees the definitions
of those before it. Error values do not stop a program. A parse error does, after everything before
it has been evaluated.
-/

set_option autoImplicit false

namespace Lisp

/-- Evaluates expressions in order; gives the last value, or `last` when there is none. -/
def runForms (fuel : Nat) (frame : FrameId) : List Value → Value → Store → Option Outcome
  | [], last, store => some (last, store)
  | form :: rest, _, store =>
    match evaluate fuel form frame store with
    | none => none
    | some (value, store) => runForms fuel frame rest value store

/-- The value of a program, or the parse error that stopped it, and the store afterwards. -/
abbrev ProgramOutcome := Except ParseError Value × Store

def runText (fuel : Nat) (source : String) (frame : FrameId) (store : Store) :
    Option ProgramOutcome :=
  let script := Script.ofText source
  (runForms fuel frame script.forms .nil store).map fun (value, store) =>
    match script.failure with
    | some cause => (.error cause, store)
    | none => (.ok value, store)

/-- Shows the value of a program on a line of its own: an error on the diagnostic stream and
everything else on the output stream. Gives the failure if there is one. -/
def printResult (value : Value) (frame : FrameId) (store : Store) : Option StreamError × Store :=
  let line := value.render ++ "\n"
  if value.isError then store.writeDiagnostic frame line else store.writeOutput frame line

end Lisp
