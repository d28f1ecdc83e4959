import Lisp.Eval.Call
import Lisp.Keyword
import Lisp.Reader

/-!
# Special forms

The rule of each special form: which operands it takes, which of them it evaluates, and where.
-/

set_option autoImplicit false

namespace Lisp

namespace Context

/-! ## Sequences, bindings and templates -/

def sequence (c : Context) (forms : List Value) (frame : FrameId) : State :=
  match forms with
  | [] => c.finish .nil
  | [form] => c.eval form frame
  | form :: rest => c.descend (.sequence rest frame) form frame

/-- Evaluates the remaining bindings of a `let` in the frame around it, then runs the body in a
frame of its own. -/
def bindNext (c : Context) (done : List (String × Value)) (rest body : List Value)
    (frame : FrameId) : State :=
  match rest with
  | [] => c.enter frame (Dict.ofList done.reverse) fun c inner => c.sequence body inner
  | .list [target, form] :: rest =>
    match symbolName "let" target with
    | .error cause => c.fail cause
    | .ok name => c.descend (.binding done name rest body frame) form frame
  | other :: _ => c.fail (.invalidForm (.letBinding other.render))

/-- Evaluates the remaining holes of a template, then fills it. -/
def fillNext (c : Context) (template : Value) (done : List Value) (rest : List Hole)
    (frame : FrameId) : State :=
  match rest with
  | [] => c.finish (Template.fill template done.reverse).1
  | hole :: rest => c.descend (.hole template hole.kind done rest frame) hole.operand frame

/-- Evaluates all expressions of a text in a frame of their own; a text with a parse error is not
evaluated at all. -/
def evalText (c : Context) (text : String) (frame : FrameId) : State :=
  match readAll text with
  | .error cause => c.fail (.parse cause)
  | .ok forms => c.enter frame [] fun c inner =>
    match forms with
    | [] => c.finish .nil
    | [form] => c.eval form inner
    | forms => c.eval (.list (.symbol "begin" :: forms)) inner

def readText (c : Context) (text : String) : State :=
  match readFirst text with
  | .error cause => c.fail (.parse cause)
  | .ok (some form) => c.finish form
  | .ok none => c.finish .nil

/-! ## The rules -/

def wrongCount (c : Context) (keyword : Keyword) (expected : ArgumentCount) (args : List Value) :
    State :=
  c.fail (.arity keyword.name expected args.length)

/-- Evaluates the second operand for the sake of a name, which the first operand has to be. -/
def evalFor (c : Context) (keyword : Keyword) (target form : Value) (frame : FrameId)
    (pending : String → Pending) : State :=
  match symbolName keyword.name target with
  | .error cause => c.fail cause
  | .ok name => c.descend (pending name) form frame

def makeClosure (c : Context) (parameters : Value) (doc : Option String) (body : Value)
    (frame : FrameId) : State :=
  match parameterNames parameters with
  | .error cause => c.fail cause
  | .ok names => c.finish (.procedure ⟨.closure ⟨names, body, frame, doc⟩, false⟩)

/-- Binds each alias to the value of the name it stands for and records it; a name without a
value is passed over. Gives the error of the first pair that does not consist of two symbols. -/
def bindAliases (s : Store) (frame : FrameId) : List Value → Option EvalError × Store
  | first :: second :: rest =>
    match symbolName Keyword.synonym.name first, symbolName Keyword.synonym.name second with
    | .error cause, _ => (some cause, s)
    | .ok _, .error cause => (some cause, s)
    | .ok synonym, .ok meaning =>
      match s.lookup? frame meaning with
      | some value => bindAliases ((s.define frame synonym value).addAlias frame synonym meaning)
          frame rest
      | none => bindAliases s frame rest
  | _ => (none, s)

/-- The procedure that a form calls as a macro, and its operands. -/
def macroCall? (s : Store) (frame : FrameId) : Value → Option (Procedure Value × List Value)
  | .list (.symbol head :: operands) =>
    match Keyword.ofName? head, s.lookup? frame head with
    | none, some (.procedure p) => if p.isMacro then some (p, operands) else none
    | _, _ => none
  | _ => none

def special (c : Context) (keyword : Keyword) (args : List Value) (frame : FrameId) : State :=
  match keyword with
  | .quote =>
    match args with
    | [form] => c.finish form
    | args => c.wrongCount .quote (.exactly 1) args
  | .quasiquote =>
    match args with
    | [template] => c.fillNext template [] (Template.holes template) frame
    | args => c.wrongCount .quasiquote (.exactly 1) args
  | .conditional =>
    match args with
    | [test, consequent] => c.descend (.test consequent none frame) test frame
    | [test, consequent, alternative] =>
      c.descend (.test consequent (some alternative) frame) test frame
    | args => c.wrongCount .conditional .twoOrThree args
  | .define =>
    match args with
    | target :: form :: _ => c.evalFor .define target form frame (.define · frame)
    | args => c.wrongCount .define (.atLeast 2) args
  | .assign =>
    match args with
    | [target, form] => c.evalFor .assign target form frame (.define · frame)
    | target :: form :: _ => c.evalFor .assign target form frame (.assign · frame)
    | args => c.wrongCount .assign (.atLeast 2) args
  | .lambda =>
    match args with
    | [parameters, body] => c.makeClosure parameters none body frame
    | [parameters, .string doc, body] => c.makeClosure parameters (some doc) body frame
    | [_, doc, _] => c.fail (doc.mismatch "lambda doc string" "string")
    | args => c.wrongCount .lambda .twoOrThree args
  | .begin => c.sequence args frame
  | .doBlock => c.sequence args frame
  | .letBlock =>
    match args with
    | .list bindings :: body => c.bindNext [] bindings body frame
    | other :: _ => c.fail (other.mismatch "let bindings" "list")
    | [] => c.wrongCount .letBlock (.atLeast 1) []
  | .evalText =>
    match args with
    | [.string text] => c.evalText text frame
    | [.list items] => c.descend (.evalText frame) (.list items) frame
    | [.symbol name] => c.descend (.evalText frame) (.symbol name) frame
    | [other] => c.fail (other.mismatch "eval" "list, symbol or string")
    | args => c.wrongCount .evalText (.exactly 1) args
  | .readText =>
    match args with
    | [form] => c.descend .readText form frame
    | args => c.wrongCount .readText (.exactly 1) args
  | .defineMacro =>
    match args with
    | target :: form :: _ => c.evalFor .defineMacro target form frame (.defineMacro · frame)
    | args => c.wrongCount .defineMacro (.atLeast 2) args
  | .expandMacro =>
    match args with
    | [form] =>
      match macroCall? c.store frame form with
      | some (p, operands) => c.callProcedure p operands frame .answer
      | none => c.finish form
    | args => c.wrongCount .expandMacro (.exactly 1) args
  | .synonym =>
    if args.length = 0 || args.length % 2 = 1 then c.wrongCount .synonym .evenFromTwo args
    else
      match c with
      | ⟨stack, room, store⟩ =>
        match bindAliases store frame args with
        | (none, store) => ⟨.finish .nil, ⟨stack, room, store⟩⟩
        | (some cause, store) => ⟨.finish (.error cause), ⟨stack, room, store⟩⟩

end Context

end Lisp
