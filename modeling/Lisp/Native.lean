/-!
# Native operations

The procedures that every global environment starts with, and their names.
-/

set_option autoImplicit false

namespace Lisp

inductive Native where
  | add | subtract | multiply | divide | remainder
  | equal | less | lessEqual | greater | greaterEqual
  | same | not
  | list | cons | car | cdr | count | isEmpty | nth | concat
  | text | symbol | typeName | raise | isError
  | hashMap | get | keys | struct
  | print | printLine | readLine
  | apply | map | help
  deriving DecidableEq, Repr, Inhabited

namespace Native

/-- The name under which programs call an operation. -/
def name : Native → String
  | add => "+"
  | subtract => "-"
  | multiply => "*"
  | divide => "/"
  | remainder => "%"
  | equal => "="
  | less => "<"
  | lessEqual => "<="
  | greater => ">"
  | greaterEqual => ">="
  | same => "eq"
  | not => "not"
  | list => "list"
  | cons => "cons"
  | car => "car"
  | cdr => "cdr"
  | count => "count"
  | isEmpty => "empty?"
  | nth => "nth"
  | concat => "concat"
  | text => "str"
  | symbol => "symbol"
  | typeName => "type"
  | raise => "error"
  | isError => "error?"
  | hashMap => "hash-map"
  | get => "get"
  | keys => "keys"
  | struct => "struct"
  | print => "print"
  | printLine => "println"
  | readLine => "read-line"
  | apply => "apply"
  | map => "map"
  | help => "help"

def all : List Native :=
  [add, subtract, multiply, divide, remainder, equal, less, lessEqual, greater, greaterEqual,
    same, not, list, cons, car, cdr, count, isEmpty, nth, concat, text, symbol, typeName,
    raise, isError, hashMap, get, keys, struct, print, printLine, readLine, apply, map, help]

end Native

end Lisp
