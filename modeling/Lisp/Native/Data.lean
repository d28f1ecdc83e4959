import Lisp.Native.Arithmetic
import Lisp.Value.Printer

/-!
# Operations on data

Lists, strings, symbols, types, errors and hashes. Where a list is expected nil counts as the empty
list, and an error value in its place is passed on as it is.
-/

set_option autoImplicit false

namespace Lisp.Native

/-- The failure of an operation that takes exactly `count` arguments. -/
def wrongCount {α : Type} (operation : Native) (count : Nat) (args : List Value) :
    Except EvalError α :=
  .error (.arity operation.name (.just count) args.length)

def listArgument (operation : Native) : Value → Except EvalError (List Value)
  | .list items => .ok items
  | .nil => .ok []
  | .error cause => .error cause
  | v => .error (v.mismatch operation.name "list")

/-- The key that an argument denotes: the contents of a string or the name of a symbol. -/
def keyArgument (operation : Native) : Value → Except EvalError String
  | .string s => .ok s
  | .symbol s => .ok s
  | .error cause => .error cause
  | v => .error (v.mismatch operation.name "string or symbol key")

def hashArgument (operation : Native) : Value → Except EvalError (Dict Value)
  | .hash _ entries => .ok entries
  | .error cause => .error cause
  | v => .error (v.mismatch operation.name "hash")

/-! ## Lists -/

def prepend : List Value → Answer
  | [item, tail] => (listArgument cons tail).map fun items => .list (item :: items)
  | args => wrongCount cons 2 args

def firstItem : List Value → Answer
  | [v] => (listArgument car v).map fun items => items.head?.getD .nil
  | args => wrongCount car 1 args

def otherItems : List Value → Answer
  | [v] => (listArgument cdr v).map fun items => .list items.tail
  | args => wrongCount cdr 1 args

/-- The number of characters of a string, of entries of a hash or of items of a list. -/
def sizeArgument (operation : Native) : Value → Except EvalError Nat
  | .string s => .ok s.length
  | .hash _ entries => .ok entries.length
  | v => (listArgument operation v).map List.length

def size : List Value → Answer
  | [v] => (sizeArgument count v).map fun n => .number (Float.ofNat n)
  | args => wrongCount count 1 args

def emptiness : List Value → Answer
  | [v] => (sizeArgument isEmpty v).map fun n => .bool (n = 0)
  | args => wrongCount isEmpty 1 args

/-- The item with the given index, counted from zero. -/
def itemAt : List Value → Answer
  | [v, index] =>
    match listArgument nth v with
    | .error cause => .error cause
    | .ok items =>
      match numberArgument nth index with
      | .error cause => .error cause
      | .ok x =>
        match Number.natural? x with
        | none => .error (.badIndex (Number.toText x))
        | some n =>
          match items[n]? with
          | some item => .ok item
          | none => .error (.indexOutOfRange (Number.toText x) items.length)
  | args => wrongCount nth 2 args

def joinItems : List Value → Except EvalError (List Value)
  | [] => .ok []
  | v :: rest =>
    match listArgument concat v with
    | .error cause => .error cause
    | .ok items => (joinItems rest).map (items ++ ·)

/-! ## Strings, symbols and types -/

/-- The plain texts of the arguments, with `separator` between them. -/
def plainTexts (separator : String) (args : List Value) : String :=
  separator.intercalate (args.map Value.plainText)

def toSymbol : List Value → Answer
  | [.string s] => .ok (.symbol s)
  | [.symbol s] => .ok (.symbol s)
  | [v] => .error (v.mismatch symbol.name "string")
  | args => wrongCount symbol 1 args

def typeOf : List Value → Answer
  | [v] => .ok (.string v.typeName)
  | args => wrongCount typeName 1 args

def raiseError : List Value → Answer
  | [v] => .error (.raised v.plainText)
  | args => wrongCount raise 1 args

def errorTest : List Value → Answer
  | [v] => .ok (.bool v.isError)
  | args => wrongCount isError 1 args

def sameness : List Value → Answer
  | [v, w] => .ok (.bool (v.same w))
  | args => wrongCount same 2 args

def negation : List Value → Answer
  | [v] => .ok (.bool !v.isTruthy)
  | args => wrongCount not 1 args

def description : List Value → Answer
  | [.procedure p] =>
    match p.doc? with
    | some doc => .ok (.string doc)
    | none => .ok .nil
  | [v] => .error (v.mismatch help.name "procedure")
  | args => wrongCount help 1 args

/-! ## Hashes -/

/-- The entries that alternating keys and values denote. -/
def entryArguments : List Value → Except EvalError (List (String × Value))
  | k :: v :: rest =>
    match keyArgument hashMap k with
    | .error cause => .error cause
    | .ok key => (entryArguments rest).map ((key, v) :: ·)
  | _ => .ok []

/-- The hash of alternating keys and values: of equal keys the last one counts. -/
def buildHash (args : List Value) : Answer :=
  if args.length % 2 = 1 then .error (.arity hashMap.name .even args.length)
  else (entryArguments args).map fun entries => .hash none (Dict.ofList entries)

/-- The value under a key of a hash, or nil; nil has no entries. -/
def valueAt : List Value → Answer
  | [.nil, _] => .ok .nil
  | [v, key] =>
    match hashArgument get v with
    | .error cause => .error cause
    | .ok entries => (keyArgument get key).map fun k => (entries.get? k).getD .nil
  | args => wrongCount get 2 args

def keyList : List Value → Answer
  | [v] => (hashArgument keys v).map fun entries => .list (entries.keys.map .string)
  | args => wrongCount keys 1 args

/-- The record with the given type name and the entries of a hash. -/
def toRecord : List Value → Answer
  | [name, v] =>
    match keyArgument struct name with
    | .error cause => .error cause
    | .ok record => (hashArgument struct v).map fun entries => .hash (some record) entries
  | args => wrongCount struct 2 args

end Lisp.Native
