import Lisp.Dict
import Lisp.Error.Eval
import Lisp.Native

/-!
# Values

The values that programs compute with. Lists are also the expressions: what is read from a text is
a value, and there is no other syntax tree.
-/

set_option autoImplicit false

namespace Lisp

abbrev FrameId := Nat

/-- A procedure written in the language: parameter names, of which `&` marks the next one as
taking all remaining arguments, a body, the frame in which the body's own frame is enclosed, and
an optional description. -/
structure Closure (α : Type) where
  parameters : List String
  body : α
  home : FrameId
  doc : Option String

inductive Callable (α : Type) where
  | native (operation : Native)
  | closure (closure : Closure α)

/-- A callable, and whether calls of it are macro calls. -/
structure Procedure (α : Type) where
  callable : Callable α
  isMacro : Bool

/-- A value. The entries of a hash form a dictionary; a hash with a name is a record of the type
with that name. -/
inductive Value where
  | nil
  | bool (value : Bool)
  | number (value : Float)
  | string (value : String)
  | char (value : Char)
  | symbol (name : String)
  | error (cause : EvalError)
  | list (items : List Value)
  | hash (name : Option String) (entries : List (String × Value))
  | procedure (procedure : Procedure Value)

instance : Inhabited Value := ⟨.nil⟩

namespace Procedure

variable {α : Type}

def doc? (p : Procedure α) : Option String :=
  match p.callable with
  | .native _ => none
  | .closure c => c.doc

def toMacro (p : Procedure α) : Procedure α :=
  { p with isMacro := true }

end Procedure

namespace Value

/-- Nil and the empty list. -/
def isNil : Value → Bool
  | nil => true
  | list items => items.isEmpty
  | _ => false

/-- All values but false, nil and the empty list count as true. -/
def isTruthy (v : Value) : Bool :=
  match v with
  | bool false => false
  | _ => !v.isNil

def isError : Value → Bool
  | error _ => true
  | _ => false

theorem isError_iff {v : Value} : v.isError = true ↔ ∃ cause, v = .error cause := by
  cases v <;> simp [isError]

def symbol? : Value → Option String
  | symbol name => some name
  | _ => none

/-- The name of a value's type; a record's type is its own name. -/
def typeName : Value → String
  | nil => "nil"
  | bool _ => "bool"
  | number _ => "number"
  | string _ => "string"
  | char _ => "char"
  | symbol _ => "symbol"
  | error _ => "error"
  | list _ => "list"
  | hash name _ => name.getD "hash"
  | procedure p => if p.isMacro then "macro" else "procedure"

/-- The error value for an argument or operand of a wrong type. -/
def mismatch (context expected : String) (found : Value) : EvalError :=
  .typeMismatch context expected found.typeName

/-- The operand of a two-element list headed by the symbol `keyword`. -/
def wrapped? (keyword : String) : Value → Option Value
  | list [symbol name, inner] => if name = keyword then some inner else none
  | _ => none

end Value

end Lisp
