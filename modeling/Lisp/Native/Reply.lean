import Lisp.Native.Data

/-!
# Replies

What an operation of the native library does with its arguments. Most operations just have a value;
the others ask the evaluator to write, to read or to call procedures on their behalf.
-/

set_option autoImplicit false

namespace Lisp.Native

inductive Reply where
  /-- The value of the call. -/
  | value (v : Value)
  /-- Write the text; the value is nil. -/
  | write (text : String)
  /-- Read a line; the value is a string, or nil at the end of the input. -/
  | readLine
  /-- The value is that of a call. -/
  | call (callee : Value) (args : List Value)
  /-- The value is the list of the values of calls on each item, up to the first error. -/
  | each (callee : Procedure Value) (items : List Value)

/-- A value or an error as the value of the call. -/
def Reply.ofAnswer : Answer → Reply
  | .ok v => .value v
  | .error cause => .value (.error cause)

/-- Calls a procedure with some arguments and the items of a list as further ones. -/
def spread : List Value → Reply
  | callee :: second :: more =>
    let args := second :: more
    match listArgument apply (args.getLast?.getD .nil) with
    | .error cause => .value (.error cause)
    | .ok items => .call callee (args.dropLast ++ items)
  | args => .value (.error (.arity apply.name (.atLeast 2) args.length))

def overItems : List Value → Reply
  | [.procedure p, v] =>
    match listArgument map v with
    | .error cause => .value (.error cause)
    | .ok items => .each p items
  | [f, _] => .value (.error (f.mismatch map.name "procedure"))
  | args => .ofAnswer (wrongCount map 2 args)

/-- Reads a line; takes no arguments. -/
def nextLine : List Value → Reply
  | [] => .readLine
  | args => .ofAnswer (wrongCount readLine 0 args)

def reply (operation : Native) (args : List Value) : Reply :=
  match operation with
  | add => .ofAnswer (sum args)
  | subtract => .ofAnswer (difference args)
  | multiply => .ofAnswer (product args)
  | divide => .ofAnswer (quotient args)
  | remainder => .ofAnswer (modulus args)
  | equal => .ofAnswer (comparison equal (· == ·) args)
  | less => .ofAnswer (comparison less (fun x y => x < y) args)
  | lessEqual => .ofAnswer (comparison lessEqual (fun x y => x ≤ y) args)
  | greater => .ofAnswer (comparison greater (fun x y => y < x) args)
  | greaterEqual => .ofAnswer (comparison greaterEqual (fun x y => y ≤ x) args)
  | same => .ofAnswer (sameness args)
  | not => .ofAnswer (negation args)
  | list => .value (.list args)
  | cons => .ofAnswer (prepend args)
  | car => .ofAnswer (firstItem args)
  | cdr => .ofAnswer (otherItems args)
  | count => .ofAnswer (size args)
  | isEmpty => .ofAnswer (emptiness args)
  | nth => .ofAnswer (itemAt args)
  | concat => .ofAnswer ((joinItems args).map .list)
  | text => .value (.string (plainTexts "" args))
  | symbol => .ofAnswer (toSymbol args)
  | typeName => .ofAnswer (typeOf args)
  | raise => .ofAnswer (raiseError args)
  | isError => .ofAnswer (errorTest args)
  | hashMap => .ofAnswer (buildHash args)
  | get => .ofAnswer (valueAt args)
  | keys => .ofAnswer (keyList args)
  | struct => .ofAnswer (toRecord args)
  | print => .write (plainTexts " " args)
  | printLine => .write (plainTexts " " args ++ "\n")
  | readLine => nextLine args
  | apply => spread args
  | map => overItems args
  | help => .ofAnswer (description args)

end Lisp.Native
