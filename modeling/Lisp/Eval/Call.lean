import Lisp.Eval.Parameters
import Lisp.Eval.State
import Lisp.Native.Reply

/-!
# Calls

How procedures are called. An application puts the body of a closure in its own place; every other
call evaluates the body within the evaluation that makes the call.
-/

set_option autoImplicit false

namespace Lisp

namespace Context

/-- Calls a procedure on each remaining item, then makes the list of the values. -/
def nextElement (c : Context) (callee : Procedure Value) (done rest : List Value)
    (frame : FrameId) (use : Use) : State :=
  match rest with
  | [] => ⟨.yield use (.list done.reverse), c⟩
  | item :: rest =>
    ⟨.call (.procedure callee) [item] frame (.element callee done rest frame use), c⟩

/-- Performs what an operation of the native library asks for. -/
def callNative (c : Context) (operation : Native) (args : List Value) (frame : FrameId)
    (use : Use) : State :=
  match operation.reply args with
  | .value v => ⟨.yield use v, c⟩
  | .write text =>
    match c with
    | ⟨stack, room, store⟩ =>
      match store.writeOutput frame text with
      | (none, store) => ⟨.yield use .nil, ⟨stack, room, store⟩⟩
      | (some failure, store) =>
        ⟨.yield use (.error (.stream operation.name failure)), ⟨stack, room, store⟩⟩
  | .readLine =>
    match c with
    | ⟨stack, room, store⟩ =>
      match store.readLine frame with
      | (.ok (some line), store) => ⟨.yield use (.string line), ⟨stack, room, store⟩⟩
      | (.ok none, store) => ⟨.yield use .nil, ⟨stack, room, store⟩⟩
      | (.error failure, store) =>
        ⟨.yield use (.error (.stream operation.name failure)), ⟨stack, room, store⟩⟩
  | .call callee args => ⟨.call callee args frame use, c⟩
  | .each callee items => c.nextElement callee [] items frame use

/-- Calls a procedure for a value that is put to `use`; the body of a closure is an evaluation
within the current one. Whether the procedure is a macro makes no difference. -/
def callProcedure (c : Context) (p : Procedure Value) (args : List Value) (frame : FrameId)
    (use : Use) : State :=
  match p.callable with
  | .native operation => c.callNative operation args frame use
  | .closure closure =>
    match bindArguments p closure args with
    | .error cause => ⟨.yield use (.error cause), c⟩
    | .ok bindings =>
      c.enter closure.home bindings fun c inner => c.descend (.result use) closure.body inner

def call (c : Context) (callee : Value) (args : List Value) (frame : FrameId) (use : Use) :
    State :=
  match callee with
  | .procedure p => c.callProcedure p args frame use
  | v => ⟨.yield use (.error (.notAProcedure v.render)), c⟩

/-- Applies a procedure in tail position: the body of a closure replaces the application. -/
def apply (c : Context) (p : Procedure Value) (args : List Value) (frame : FrameId) : State :=
  match p.callable with
  | .native operation => c.callNative operation args frame .answer
  | .closure closure =>
    match bindArguments p closure args with
    | .error cause => c.fail cause
    | .ok bindings => c.enter closure.home bindings fun c inner => c.eval closure.body inner

/-- Evaluates the remaining operands of an application from left to right, then applies the
procedure. Errors among the arguments are passed on to it. -/
def applyNext (c : Context) (p : Procedure Value) (done rest : List Value) (frame : FrameId) :
    State :=
  match rest with
  | [] => c.apply p done.reverse frame
  | form :: rest => c.descend (.operand p done rest frame) form frame

end Context

end Lisp
