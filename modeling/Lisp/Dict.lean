/-!
# Dictionaries

Finite maps with text keys. A dictionary is the list of its entries in strictly ascending
code-point order of their keys, so two dictionaries with the same entries are equal, and every
listing of keys or entries comes out in the one order in which they are shown.
-/

set_option autoImplicit false

namespace Lisp

/-- A finite map from text to `α`, as its entries in ascending key order. -/
abbrev Dict (α : Type) := List (String × α)

namespace Dict

variable {α β : Type}

/-- The invariant of a dictionary: keys ascend strictly, so none occurs twice. -/
def Ascending (d : Dict α) : Prop :=
  d.Pairwise fun first second => first.1 < second.1

def get? : Dict α → String → Option α
  | [], _ => none
  | (k, v) :: rest, key => if k = key then some v else get? rest key

/-- Stores a value under a key, replacing the one that was there. -/
def insert : Dict α → String → α → Dict α
  | [], key, value => [(key, value)]
  | (k, v) :: rest, key, value =>
    if key < k then (key, value) :: (k, v) :: rest
    else if key = k then (key, value) :: rest
    else (k, v) :: insert rest key value

def keys (d : Dict α) : List String :=
  d.map Prod.fst

/-- Inserts the pairs from left to right: of two pairs with one key the later one counts. -/
def insertAll (d : Dict α) (pairs : List (String × α)) : Dict α :=
  pairs.foldl (fun acc pair => acc.insert pair.1 pair.2) d

/-- The dictionary of a list of pairs; of two pairs with one key the later one counts. -/
def ofList (pairs : List (String × α)) : Dict α :=
  insertAll [] pairs

end Dict

end Lisp
