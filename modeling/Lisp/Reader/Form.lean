import Lisp.Number.Decimal
import Lisp.Text.Quoted
import Lisp.Value

/-!
# Forms

The values that single tokens and bracketed sequences denote: what an atom stands for, the hash of
a sequence of keys and values, and the shorthand for defining a procedure.
-/

set_option autoImplicit false

namespace Lisp

/-- Whether an atom is tried as a number: after any signs and then any points comes a digit. -/
def looksNumeric (cs : List Char) : Bool :=
  match (cs.dropWhile fun c => c = '+' || c = '-').dropWhile (· = '.') with
  | c :: _ => c.isDigit
  | [] => false

/-- The value of an atom: a truth value, nil, a number, or else the symbol with this name. -/
def Value.ofAtom (text : String) : Value :=
  if text = "#t" || text = "true" then .bool true
  else if text = "#f" || text = "false" then .bool false
  else if text = "nil" then .nil
  else if looksNumeric text.toList then
    match Number.ofText? text with
    | some x => .number x
    | none => .symbol text
  else .symbol text

/-- The key that a form between curly brackets denotes: the contents of a string or the name of a
symbol. -/
def Value.key? : Value → Option String
  | .string s => some s
  | .symbol s => some s
  | _ => none

/-- The keys and values that alternate in a list of forms, up to the first form in the place of a
key that is none. -/
def keyedPairs : List Value → Except HashFault (List (String × Value))
  | [] => .ok []
  | [_] => .error .oddCount
  | k :: v :: rest =>
    match k.key? with
    | none => .error (.badKey k.typeName)
    | some key => (keyedPairs rest).map ((key, v) :: ·)

/-- The hash that the forms between curly brackets denote: of equal keys the last one counts. That
the forms come in pairs is checked before the keys are. -/
def hashLiteral (items : List Value) : Except HashFault Value :=
  if items.length % 2 = 1 then .error .oddCount
  else (keyedPairs items).map fun pairs => .hash none (Dict.ofList pairs)

/-- What follows the parameters of a procedure whose definition has the forms `body`: a single
form, a description and a form, or all forms in sequence. -/
def lambdaBody : List Value → List Value
  | [] => []
  | [form] => [form]
  | [.string doc, form] => [.string doc, form]
  | forms => [.list (.symbol "begin" :: forms)]

/-- Reads `(define (name parameter ...) form ...)` as the definition of `name` as a procedure;
every other list stays as it is. -/
def expandDefinition : List Value → List Value
  | .symbol keyword :: .list (name :: parameters) :: body =>
    if keyword = "define" then
      [.symbol "define", name, .list (.symbol "lambda" :: .list parameters :: lambdaBody body)]
    else .symbol keyword :: .list (name :: parameters) :: body
  | items => items

end Lisp
