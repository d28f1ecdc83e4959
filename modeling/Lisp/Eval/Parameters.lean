import Lisp.Value.Printer

/-!
# Parameters

Which parameter lists a procedure may have, and how arguments are bound to parameters. The marker
`&` stands before the last parameter and lets it take all remaining arguments as a list.
-/

set_option autoImplicit false

namespace Lisp

/-- The symbol that marks the parameter after it as taking all remaining arguments. -/
def restMarker : String := "&"

/-- The name of a symbol in a place where `form` requires one. -/
def symbolName (form : String) (v : Value) : Except EvalError String :=
  match v.symbol? with
  | some name => .ok name
  | none => .error (.notASymbol form v.typeName)

/-- The names of symbols in places where `form` requires them. -/
def symbolNames (form : String) : List Value → Except EvalError (List String)
  | [] => .ok []
  | v :: rest =>
    match symbolName form v with
    | .error cause => .error cause
    | .ok name => (symbolNames form rest).map (name :: ·)

def fixedParameters (parameters : List String) : List String :=
  parameters.takeWhile (· ≠ restMarker)

def isVariadic (parameters : List String) : Bool :=
  (fixedParameters parameters).length < parameters.length

def restParameter? (parameters : List String) : Option String :=
  parameters[(fixedParameters parameters).length + 1]?

/-- The parameter names of a parameter list: symbols, with exactly one after the first marker. -/
def parameterNames : Value → Except EvalError (List String)
  | .list items =>
    match symbolNames "lambda" items with
    | .error cause => .error cause
    | .ok names =>
      if isVariadic names && (fixedParameters names).length + 2 ≠ names.length then
        .error (.invalidForm .restParameter)
      else .ok names
  | v => .error (v.mismatch "lambda parameters" "list")

def expectedCount (parameters : List String) : ArgumentCount :=
  let fixed := (fixedParameters parameters).length
  if isVariadic parameters then .atLeast fixed else .just fixed

/-- Whether a procedure with these parameters takes `count` arguments. -/
def accepts (parameters : List String) (count : Nat) : Bool :=
  let fixed := (fixedParameters parameters).length
  if isVariadic parameters then fixed ≤ count else fixed = count

/-- The bindings of a call: each fixed parameter has the argument in its place, of equal names the
last one counts, and the parameter after the marker has the list of the remaining arguments. -/
def parameterBindings (parameters : List String) (args : List Value) : Dict Value :=
  let fixed := fixedParameters parameters
  let named := Dict.ofList (fixed.zip args)
  match restParameter? parameters with
  | some name => named.insert name (.list (args.drop fixed.length))
  | none => named

/-- The bindings of a call of the closure `c` of the procedure `p`, or the error for a wrong number
of arguments. -/
def bindArguments (p : Procedure Value) (c : Closure Value) (args : List Value) :
    Except EvalError (Dict Value) :=
  if accepts c.parameters args.length then .ok (parameterBindings c.parameters args)
  else .error (.arity p.render (expectedCount c.parameters) args.length)

end Lisp
