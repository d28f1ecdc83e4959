import Lisp.Eval.Template
import Lisp.Store

/-!
# States of the evaluation machine

Evaluation proceeds in single steps. An evaluation that needs the value of another expression puts
its own remaining work on a stack and goes on with that expression; the height of the stack is the
number of evaluations that wait, and there is room for a limited number. In tail position (the
branches of a conditional, the last form of a sequence, the body of a closure, the expansion of a
macro) the expression is replaced instead, and the stack stays as it is.
-/

set_option autoImplicit false

namespace Lisp

/-- What becomes of the value of a call. -/
inductive Use where
  /-- It is the value of the form being evaluated. -/
  | answer
  /-- It is the expansion of a macro call in `frame`. -/
  | expansion (frame : FrameId)
  /-- `callee` is called on each item of a list, and this is one of the values; `done` holds those
  before it, the last one first, and `rest` the items that are still to come. -/
  | element (callee : Procedure Value) (done rest : List Value) (frame : FrameId) (outer : Use)

/-- The remaining work of an evaluation that waits for the value of an expression. -/
inductive Pending where
  /-- A conditional waits for its test. -/
  | test (consequent : Value) (alternative : Option Value) (frame : FrameId)
  /-- A definition waits for the value to bind. -/
  | define (name : String) (frame : FrameId)
  /-- An outer assignment waits for the value to assign. -/
  | assign (name : String) (frame : FrameId)
  /-- A sequence runs a form for its effect. -/
  | sequence (rest : List Value) (frame : FrameId)
  /-- A `let` waits for the value of `name`; `done` holds the bindings before it, the last one
  first. -/
  | binding (done : List (String × Value)) (name : String) (rest body : List Value)
      (frame : FrameId)
  /-- The value is text to evaluate. -/
  | evalText (frame : FrameId)
  /-- The value is text to read. -/
  | readText
  /-- The value is the closure of a macro. -/
  | defineMacro (name : String) (frame : FrameId)
  /-- The body of a called closure runs. -/
  | result (use : Use)
  /-- An application waits for its operator. -/
  | operator (head : Value) (operands : List Value) (frame : FrameId)
  /-- An application waits for an operand; `done` holds the arguments before it, the last one
  first. -/
  | operand (procedure : Procedure Value) (done rest : List Value) (frame : FrameId)
  /-- A template waits for the value of a hole; `done` holds the values of the holes before it, the
  last one first. -/
  | hole (template : Value) (kind : HoleKind) (done : List Value) (rest : List Hole)
      (frame : FrameId)

inductive Control where
  /-- Evaluate an expression in a frame. -/
  | eval (form : Value) (frame : FrameId)
  /-- Call a value with arguments, in the frame from which the call is made. -/
  | call (callee : Value) (args : List Value) (frame : FrameId) (use : Use)
  /-- Put the value of a call to its use. -/
  | yield (use : Use) (value : Value)
  /-- Give a value to the work that waited for it. -/
  | resume (pending : Pending) (value : Value)
  /-- Give work an error, because there is no room for the evaluation that it asked for. -/
  | refuse (pending : Pending)
  /-- Finish the current evaluation with a value. -/
  | finish (value : Value)

/-- What surrounds the current evaluation: the work that waits, the number of further evaluations
that may begin before one has finished, and the store. -/
structure Context where
  stack : List Pending
  room : Nat
  store : Store

structure State where
  control : Control
  context : Context

namespace Context

/-- Goes on with an expression in place of the current one. -/
def eval (c : Context) (form : Value) (frame : FrameId) : State :=
  ⟨.eval form frame, c⟩

def finish (c : Context) (value : Value) : State :=
  ⟨.finish value, c⟩

def fail (c : Context) (cause : EvalError) : State :=
  ⟨.finish (.error cause), c⟩

/-- Evaluates an expression for the sake of `pending`, if there is room for another evaluation. -/
def descend (c : Context) (pending : Pending) (form : Value) (frame : FrameId) : State :=
  match c with
  | ⟨stack, 0, store⟩ => ⟨.refuse pending, ⟨stack, 0, store⟩⟩
  | ⟨stack, room + 1, store⟩ => ⟨.eval form frame, ⟨pending :: stack, room, store⟩⟩

def withStore (c : Context) (change : Store → Store) : Context :=
  match c with
  | ⟨stack, room, store⟩ => ⟨stack, room, change store⟩

/-- Adds a frame enclosed in `outer` and goes on in it. -/
def enter (c : Context) (outer : FrameId) (bindings : Dict Value)
    (next : Context → FrameId → State) : State :=
  match c with
  | ⟨stack, room, store⟩ =>
    let (frame, store) := store.addChild outer bindings
    next ⟨stack, room, store⟩ frame

end Context

end Lisp
