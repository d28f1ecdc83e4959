import Lisp.Eval.Step

/-!
# Evaluation

Runs of the evaluation machine. A run is given a number of steps; one that has not halted by then
has no outcome, and a program terminates when some number of steps suffices. The outcome of a run
that halts does not depend on the number.
-/

set_option autoImplicit false

namespace Lisp

/-- A value and the store after the run that gave it. -/
abbrev Outcome := Value × Store

/-- Runs the machine for at most `fuel` steps. -/
def State.run : (fuel : Nat) → State → Option Outcome
  | 0, _ => none
  | fuel + 1, state =>
    match state.step with
    | .running next => run fuel next
    | .halted value store => some (value, store)

/-- Evaluates an expression in a frame, with `budget` evaluations within one another allowed. -/
def evaluateWithin (budget fuel : Nat) (form : Value) (frame : FrameId) (store : Store) :
    Option Outcome :=
  match budget with
  | 0 => some (.error .depthExceeded, store)
  | room + 1 => State.run fuel ⟨.eval form frame, ⟨[], room, store⟩⟩

/-- Calls a value with arguments, with `budget` evaluations within one another allowed. -/
def callWithin (budget fuel : Nat) (callee : Value) (args : List Value) (frame : FrameId)
    (store : Store) : Option Outcome :=
  State.run fuel ⟨.call callee args frame .answer, ⟨[], budget, store⟩⟩

def evaluate (fuel : Nat) (form : Value) (frame : FrameId) (store : Store) : Option Outcome :=
  evaluateWithin maxDepth fuel form frame store

def callValue (fuel : Nat) (callee : Value) (args : List Value) (frame : FrameId)
    (store : Store) : Option Outcome :=
  callWithin maxDepth fuel callee args frame store

end Lisp
