import Lisp.Value

/-!
# Templates

A quasiquoted template is data with holes. A list `(unquote e)` is a hole for one value, and as an
item of a list `(splice-unquote e)` is a hole for the items of a list. Hashes and the operands of
holes are not searched. Filling a template takes one value for each of its holes, from left to
right.
-/

set_option autoImplicit false

namespace Lisp

/-- Whether a hole takes a value or the items of a list. -/
inductive HoleKind where
  | value
  | splice
  deriving DecidableEq, Repr

/-- A hole of a template and the expression whose value fills it. -/
structure Hole where
  kind : HoleKind
  operand : Value

namespace Value

/-- The operand of a hole for one value. -/
def unquoted? (v : Value) : Option Value :=
  v.wrapped? "unquote"

/-- The operand of a hole for the items of a list. -/
def spliced? (v : Value) : Option Value :=
  v.wrapped? "splice-unquote"

/-- The items that a value fills into a hole for the items of a list; nil counts as the empty
list. -/
def spliceItems? : Value → Option (List Value)
  | list items => some items
  | nil => some []
  | _ => none

end Value

namespace Template

mutual

/-- The holes of a template, from left to right. -/
def holes (template : Value) : List Hole :=
  match template.unquoted? with
  | some operand => [⟨.value, operand⟩]
  | none =>
    match template with
    | .list items => itemHoles items
    | _ => []

def itemHoles : List Value → List Hole
  | [] => []
  | item :: rest =>
    match item.spliced? with
    | some operand => ⟨.splice, operand⟩ :: itemHoles rest
    | none => holes item ++ itemHoles rest

end

def next (values : List Value) : Value × List Value :=
  (values.head?.getD .nil, values.tail)

mutual

/-- Fills the holes of a template from a list of values; gives the result and the values left. -/
def fill (template : Value) (values : List Value) : Value × List Value :=
  match template.unquoted? with
  | some _ => next values
  | none =>
    match template with
    | .list items =>
      let (filled, values) := fillItems items values
      (.list filled, values)
    | other => (other, values)

def fillItems : List Value → List Value → List Value × List Value
  | [], values => ([], values)
  | item :: rest, values =>
    match item.spliced? with
    | some _ =>
      let (value, values) := next values
      let (filled, values) := fillItems rest values
      (value.spliceItems?.getD [] ++ filled, values)
    | none =>
      let (value, values) := fill item values
      let (filled, values) := fillItems rest values
      (value :: filled, values)

end

end Template

end Lisp
