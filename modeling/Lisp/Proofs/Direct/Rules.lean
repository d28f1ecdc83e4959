import Lisp.Eval

/-!
# Direct evaluation

Evaluation as plain recursion. Where the machine replaces the current expression by another one,
the direct evaluator evaluates that expression by a recursive call; where the machine puts work on
its stack, the direct evaluator does the work after a recursive call. It knows no stack, and it
runs under a limit on nested evaluations or under none.
-/

set_option autoImplicit false

namespace Lisp.Direct

/-- A computation that reads and changes the store; `none` when it is cut off before its end. -/
abbrev Run (α : Type) := StateT Store Option α

/-- An operation on the store that always ends. -/
def act {α : Type} (operation : Store → α × Store) : Run α :=
  fun store => some (operation store)

theorem pure_apply {α : Type} (value : α) (store : Store) :
    (pure value : Run α) store = some (value, store) := rfl

theorem act_apply {α : Type} (operation : Store → α × Store) (store : Store) :
    act operation store = some (operation store) := rfl

theorem bind_apply {α β : Type} (first : Run α) (next : α → Run β) (store : Store) :
    (first >>= next) store = (first store).bind fun result => next result.1 result.2 := rfl

theorem bind_eq_some {α β : Type} {first : Run α} {next : α → Run β} {store : Store}
    {result : β × Store} (ended : (first >>= next) store = some result) :
    ∃ value middle, first store = some (value, middle) ∧ next value middle = some result := by
  obtain ⟨⟨value, middle⟩, ran, finished⟩ := Option.bind_eq_some_iff.mp ended
  exact ⟨value, middle, ran, finished⟩

def fail (cause : EvalError) : Run Value :=
  pure (.error cause)

def enclose (outer : FrameId) (bindings : Dict Value) : Run FrameId :=
  act fun store => store.addChild outer bindings

def define (frame : FrameId) (name : String) (value : Value) : Run Value :=
  act fun store => (.nil, store.define frame name value)

/-- The recursive calls that the rules make. `tail` evaluates an expression in place of the
current one, `nested` evaluates one whose value the current evaluation needs, and `call` calls a
value on behalf of a native operation. -/
structure Recursion where
  tail : Value → FrameId → Run Value
  nested : Value → FrameId → Run Value
  call : Value → List Value → FrameId → Run Value

variable (recur : Recursion)

/-! ## Sequences, bindings and templates -/

def values : List Value → FrameId → Run (List Value)
  | [], _ => pure []
  | form :: rest, frame => do
    let value ← recur.nested form frame
    let others ← values rest frame
    pure (value :: others)

def sequence : List Value → FrameId → Run Value
  | [], _ => pure .nil
  | [form], frame => recur.tail form frame
  | form :: rest, frame => do
    let _ ← recur.nested form frame
    sequence rest frame

/-- The names and values of the bindings of a `let`; the first malformed binding is an error. -/
def bindingValues : List Value → FrameId → Run (Except EvalError (List (String × Value)))
  | [], _ => pure (.ok [])
  | .list [target, form] :: rest, frame =>
    match symbolName "let" target with
    | .error cause => pure (.error cause)
    | .ok name => do
      let value ← recur.nested form frame
      let others ← bindingValues rest frame
      pure (others.map ((name, value) :: ·))
  | other :: _, _ => pure (.error (.invalidForm (.letBinding other.render)))

def splicedItems (value : Value) : Except EvalError (List Value) :=
  match value.spliceItems?, value with
  | some items, _ => .ok items
  | none, .error cause => .error cause
  | none, other => .error (other.mismatch "splice-unquote" "list")

mutual

/-- Copies a template; holes are evaluated as they are met. -/
def template (form : Value) (frame : FrameId) : Run (Except EvalError Value) :=
  match form.unquoted? with
  | some operand => do
    let value ← recur.nested operand frame
    pure (.ok value)
  | none =>
    match form with
    | .list items => do
      let copied ← templateItems items frame
      pure (copied.map .list)
    | other => pure (.ok other)

def templateItems : List Value → FrameId → Run (Except EvalError (List Value))
  | [], _ => pure (.ok [])
  | item :: rest, frame =>
    match item.spliced? with
    | some operand => do
      let value ← recur.nested operand frame
      match splicedItems value with
      | .error cause => pure (.error cause)
      | .ok spliced => do
        let others ← templateItems rest frame
        pure (others.map (spliced ++ ·))
    | none => do
      match ← template item frame with
      | .error cause => pure (.error cause)
      | .ok copy => do
        let others ← templateItems rest frame
        pure (others.map (copy :: ·))

end

/-! ## Calls -/

/-- Calls a procedure on each item; the first error among the values ends the calls. -/
def mapItems (callee : Procedure Value) : List Value → FrameId → Run (Except EvalError (List Value))
  | [], _ => pure (.ok [])
  | item :: rest, frame => do
    match ← recur.call (.procedure callee) [item] frame with
    | .error cause => pure (.error cause)
    | value => do
      let others ← mapItems callee rest frame
      pure (others.map (value :: ·))

def native (operation : Native) (args : List Value) (frame : FrameId) : Run Value :=
  match operation.reply args with
  | .value v => pure v
  | .write text => act fun store =>
    match store.writeOutput frame text with
    | (none, store) => (.nil, store)
    | (some failure, store) => (.error (.stream operation.name failure), store)
  | .readLine => act fun store =>
    match store.readLine frame with
    | (.ok (some line), store) => (.string line, store)
    | (.ok none, store) => (.nil, store)
    | (.error failure, store) => (.error (.stream operation.name failure), store)
  | .call callee args => recur.call callee args frame
  | .each callee items => do
    match ← mapItems recur callee items frame with
    | .error cause => fail cause
    | .ok results => pure (.list results)

/-- Calls a procedure and evaluates the body of a closure by `body`. -/
def enter (body : Value → FrameId → Run Value) (p : Procedure Value) (args : List Value)
    (frame : FrameId) : Run Value :=
  match p.callable with
  | .native operation => native recur operation args frame
  | .closure closure =>
    match bindArguments p closure args with
    | .error cause => fail cause
    | .ok bindings => do
      let inner ← enclose closure.home bindings
      body closure.body inner

def callProcedure (p : Procedure Value) (args : List Value) (frame : FrameId) : Run Value :=
  enter recur recur.nested p args frame

def apply (p : Procedure Value) (args : List Value) (frame : FrameId) : Run Value :=
  enter recur recur.tail p args frame

def call (callee : Value) (args : List Value) (frame : FrameId) : Run Value :=
  match callee with
  | .procedure p => callProcedure recur p args frame
  | other => fail (.notAProcedure other.render)

/-- Evaluates an application: the operator, then either the expansion of a macro call or the
operands and the body of the procedure. -/
def application (head : Value) (operands : List Value) (frame : FrameId) : Run Value := do
  match ← recur.nested head frame with
  | .procedure p =>
    if p.isMacro then do
      let expansion ← callProcedure recur p operands frame
      if expansion.isError then pure expansion else recur.tail expansion frame
    else do
      let args ← values recur operands frame
      apply recur p args frame
  | .error cause => fail cause
  | other => fail (.notAProcedure (head.render ++ " (" ++ other.typeName ++ ")"))

/-! ## Special forms -/

def wrongCount (keyword : Keyword) (expected : ArgumentCount) (args : List Value) : Run Value :=
  fail (.arity keyword.name expected args.length)

def evalFor (keyword : Keyword) (target form : Value) (frame : FrameId)
    (next : String → Value → Run Value) : Run Value :=
  match symbolName keyword.name target with
  | .error cause => fail cause
  | .ok name => do
    let value ← recur.nested form frame
    next name value

def makeClosure (parameters : Value) (doc : Option String) (body : Value) (frame : FrameId) :
    Run Value :=
  match parameterNames parameters with
  | .error cause => fail cause
  | .ok names => pure (.procedure ⟨.closure ⟨names, body, frame, doc⟩, false⟩)

def assignOuter (frame : FrameId) (name : String) (value : Value) : Run Value :=
  act fun store =>
    match store.assignee? frame name with
    | some target => (.nil, store.define target name value)
    | none => (.error (.notFound name), store)

def defineMacro (frame : FrameId) (name : String) (value : Value) : Run Value :=
  match value with
  | .procedure ⟨.closure closure, _⟩ => define frame name (.procedure ⟨.closure closure, true⟩)
  | .error cause => fail cause
  | other => fail (other.mismatch "defmacro!" "closure")

def evalText (text : String) (frame : FrameId) : Run Value :=
  match readAll text with
  | .error cause => fail (.parse cause)
  | .ok forms => do
    let inner ← enclose frame []
    match forms with
    | [] => pure .nil
    | [form] => recur.tail form inner
    | forms => recur.tail (.list (.symbol "begin" :: forms)) inner

def readText (text : String) : Run Value :=
  match readFirst text with
  | .error cause => fail (.parse cause)
  | .ok (some form) => pure form
  | .ok none => pure .nil

/-- Evaluates an expression for a text that is then put to use; an error is passed on. -/
def textOf (form : Value) (frame : FrameId) (use : String → Run Value) : Run Value := do
  let value ← recur.nested form frame
  if value.isError then pure value else use value.plainText

def conditional (test consequent : Value) (alternative : Option Value) (frame : FrameId) :
    Run Value := do
  let value ← recur.nested test frame
  if value.isError then pure value
  else if value.isTruthy then recur.tail consequent frame
  else
    match alternative with
    | some form => recur.tail form frame
    | none => pure .nil

def letBlock (bindings body : List Value) (frame : FrameId) : Run Value := do
  match ← bindingValues recur bindings frame with
  | .error cause => fail cause
  | .ok pairs => do
    let inner ← enclose frame (Dict.ofList pairs)
    sequence recur body inner

def quasiquote (form : Value) (frame : FrameId) : Run Value := do
  match ← template recur form frame with
  | .error cause => fail cause
  | .ok copy => pure copy

/-- The expansion of a macro call; every other form as it is. -/
def expandMacro (form : Value) (frame : FrameId) : Run Value := do
  match ← act fun store => (Context.macroCall? store frame form, store) with
  | some (p, operands) => callProcedure recur p operands frame
  | none => pure form

def bindAliases (args : List Value) (frame : FrameId) : Run Value :=
  act fun store =>
    match Context.bindAliases store frame args with
    | (none, store) => (.nil, store)
    | (some cause, store) => (.error cause, store)

def special (keyword : Keyword) (args : List Value) (frame : FrameId) : Run Value :=
  match keyword with
  | .quote =>
    match args with
    | [form] => pure form
    | args => wrongCount .quote (.exactly 1) args
  | .quasiquote =>
    match args with
    | [form] => quasiquote recur form frame
    | args => wrongCount .quasiquote (.exactly 1) args
  | .conditional =>
    match args with
    | [test, consequent] => conditional recur test consequent none frame
    | [test, consequent, alternative] => conditional recur test consequent (some alternative) frame
    | args => wrongCount .conditional .twoOrThree args
  | .define =>
    match args with
    | target :: form :: _ => evalFor recur .define target form frame (define frame)
    | args => wrongCount .define (.atLeast 2) args
  | .assign =>
    match args with
    | [target, form] => evalFor recur .assign target form frame (define frame)
    | target :: form :: _ => evalFor recur .assign target form frame (assignOuter frame)
    | args => wrongCount .assign (.atLeast 2) args
  | .lambda =>
    match args with
    | [parameters, body] => makeClosure parameters none body frame
    | [parameters, .string doc, body] => makeClosure parameters (some doc) body frame
    | [_, doc, _] => fail (doc.mismatch "lambda doc string" "string")
    | args => wrongCount .lambda .twoOrThree args
  | .begin => sequence recur args frame
  | .doBlock => sequence recur args frame
  | .letBlock =>
    match args with
    | .list bindings :: body => letBlock recur bindings body frame
    | other :: _ => fail (other.mismatch "let bindings" "list")
    | [] => wrongCount .letBlock (.atLeast 1) []
  | .evalText =>
    match args with
    | [.string text] => evalText recur text frame
    | [.list items] => textOf recur (.list items) frame (evalText recur · frame)
    | [.symbol name] => textOf recur (.symbol name) frame (evalText recur · frame)
    | [other] => fail (other.mismatch "eval" "list, symbol or string")
    | args => wrongCount .evalText (.exactly 1) args
  | .readText =>
    match args with
    | [form] => textOf recur form frame readText
    | args => wrongCount .readText (.exactly 1) args
  | .defineMacro =>
    match args with
    | target :: form :: _ => evalFor recur .defineMacro target form frame (defineMacro frame)
    | args => wrongCount .defineMacro (.atLeast 2) args
  | .expandMacro =>
    match args with
    | [form] => expandMacro recur form frame
    | args => wrongCount .expandMacro (.exactly 1) args
  | .synonym =>
    if args.length = 0 || args.length % 2 = 1 then wrongCount .synonym .evenFromTwo args
    else bindAliases args frame

def eval (form : Value) (frame : FrameId) : Run Value :=
  match form with
  | .symbol name => act fun store => ((store.lookup? frame name).getD .nil, store)
  | .list (head :: operands) =>
    match head.symbol?.bind Keyword.ofName? with
    | some keyword => special recur keyword operands frame
    | none => application recur head operands frame
  | other => pure other

/-! ## The evaluator -/

inductive Request where
  | eval (form : Value) (frame : FrameId)
  | call (callee : Value) (args : List Value) (frame : FrameId)

def Request.frame : Request → FrameId
  | eval _ frame => frame
  | call _ _ frame => frame

/-- How many further evaluations may begin within one another; `none` for any number of them. -/
abbrev Limit := Option Nat

/-- The recursive calls under a limit: only a nested evaluation takes up room, and it has an error
for its value when there is none. -/
def Recursion.under (run : Limit → Request → Run Value) (limit : Limit) : Recursion where
  tail form frame := run limit (.eval form frame)
  nested form frame :=
    match limit with
    | none => run none (.eval form frame)
    | some 0 => pure (.error .depthExceeded)
    | some (room + 1) => run (some room) (.eval form frame)
  call callee args frame := run limit (.call callee args frame)

def answer : Request → Run Value
  | .eval form frame => eval recur form frame
  | .call callee args frame => call recur callee args frame

/-- Answers a request under a limit, with at most `fuel` recursive calls within one another. -/
def run : (fuel : Nat) → Limit → Request → Run Value
  | 0, _, _ => fun _ => none
  | fuel + 1, limit, request => answer (.under (run fuel) limit) request

/-- Evaluates an expression in a frame, without a limit on nested evaluations. -/
def evaluate (fuel : Nat) (form : Value) (frame : FrameId) : Run Value :=
  run fuel none (.eval form frame)

end Lisp.Direct
