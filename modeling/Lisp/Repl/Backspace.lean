import Lisp.Text.Cluster

/-!
# Backspaces

Entries in which the user has taken back what was typed. Each backspace removes the cluster before
it, or nothing at the start of the entry.
-/

set_option autoImplicit false

namespace Lisp.Repl

/-- The character that takes back the cluster before it. -/
def backspace : Char := '\x08'

/-- The clusters that are left, the last one first, after another cluster has been typed. -/
def typeCluster (left : List (List Char)) (cluster : List Char) : List (List Char) :=
  if cluster = [backspace] then left.tail else cluster :: left

/-- A text after its backspaces have taken effect. A text without a backspace stays as it is, and
its clusters need not be found. -/
def applyBackspaces (text : List Char) : List Char :=
  if text.contains backspace then
    ((Text.clusters text).foldl typeCluster []).reverse.flatten
  else text

theorem applyBackspaces_of_notMem (text : List Char) (h : backspace ∉ text) :
    applyBackspaces text = text := by
  simp [applyBackspaces, h]

end Lisp.Repl
