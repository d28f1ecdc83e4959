import Lisp.Eval.Special

/-!
# Steps of the evaluation machine

What the machine does next in each state.
-/

set_option autoImplicit false

namespace Lisp

namespace Context

/-- One step of an evaluation: a symbol has its value, or nil if it has none; a list that is not
empty is a special form or an application; every other value stands for itself. -/
def evalStep (c : Context) (form : Value) (frame : FrameId) : State :=
  match form with
  | .symbol name => c.finish ((c.store.lookup? frame name).getD .nil)
  | .list (head :: operands) =>
    match head.symbol?.bind Keyword.ofName? with
    | some keyword => c.special keyword operands frame
    | none => c.descend (.operator head operands frame) head frame
  | other => c.finish other

/-- Puts the value of a call to its use. An expansion is evaluated unless it is an error, and the
first error among the values of calls on each item is the value of them all. -/
def yieldStep (c : Context) (use : Use) (value : Value) : State :=
  match use with
  | .answer => c.finish value
  | .expansion frame => if value.isError then c.finish value else c.eval value frame
  | .element callee done rest frame outer =>
    if value.isError then ⟨.yield outer value, c⟩
    else c.nextElement callee (value :: done) rest frame outer

/-- Goes on with the work that waited for a value. -/
def resumeStep (c : Context) (pending : Pending) (value : Value) : State :=
  match pending with
  | .test consequent alternative frame =>
    if value.isError then c.finish value
    else if value.isTruthy then c.eval consequent frame
    else
      match alternative with
      | some form => c.eval form frame
      | none => c.finish .nil
  | .define name frame => (c.withStore (·.define frame name value)).finish .nil
  | .assign name frame =>
    match c with
    | ⟨stack, room, store⟩ =>
      match store.assignee? frame name with
      | some target => ⟨.finish .nil, ⟨stack, room, store.define target name value⟩⟩
      | none => ⟨.finish (.error (.notFound name)), ⟨stack, room, store⟩⟩
  | .sequence rest frame => c.sequence rest frame
  | .binding done name rest body frame => c.bindNext ((name, value) :: done) rest body frame
  | .evalText frame =>
    if value.isError then c.finish value else c.evalText value.plainText frame
  | .readText => if value.isError then c.finish value else c.readText value.plainText
  | .defineMacro name frame =>
    match value with
    | .procedure ⟨.closure closure, _⟩ =>
      (c.withStore (·.define frame name (.procedure ⟨.closure closure, true⟩))).finish .nil
    | .error cause => c.fail cause
    | other => c.fail (other.mismatch "defmacro!" "closure")
  | .result use => ⟨.yield use value, c⟩
  | .operator head operands frame =>
    match value with
    | .procedure p =>
      if p.isMacro then c.callProcedure p operands frame (.expansion frame)
      else c.applyNext p [] operands frame
    | .error cause => c.fail cause
    | other => c.fail (.notAProcedure (head.render ++ " (" ++ other.typeName ++ ")"))
  | .operand p done rest frame => c.applyNext p (value :: done) rest frame
  | .hole template kind done rest frame =>
    match kind with
    | .value => c.fillNext template (value :: done) rest frame
    | .splice =>
      match value.spliceItems?, value with
      | some _, _ => c.fillNext template (value :: done) rest frame
      | none, .error cause => c.fail cause
      | none, other => c.fail (other.mismatch "splice-unquote" "list")

end Context

inductive Progress where
  | running (state : State)
  | halted (value : Value) (store : Store)

/-- One step of the machine. When an evaluation finishes, its value goes to the work that waits for
it, or the machine halts. -/
def State.step : State → Progress
  | ⟨.eval form frame, c⟩ => .running (c.evalStep form frame)
  | ⟨.call callee args frame use, c⟩ => .running (c.call callee args frame use)
  | ⟨.yield use value, c⟩ => .running (c.yieldStep use value)
  | ⟨.resume pending value, c⟩ => .running (c.resumeStep pending value)
  | ⟨.refuse pending, c⟩ => .running (c.resumeStep pending (.error .depthExceeded))
  | ⟨.finish value, ⟨[], _, store⟩⟩ => .halted value store
  | ⟨.finish value, ⟨pending :: stack, room, store⟩⟩ =>
    .running ⟨.resume pending value, ⟨stack, room + 1, store⟩⟩

end Lisp
