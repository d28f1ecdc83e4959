/-!
# Ranges of characters

Properties of characters as tables: the code points that have the property, as ascending ranges.
-/

set_option autoImplicit false

namespace Lisp.Text

/-- Ranges of code points in ascending order, both ends included. -/
abbrev Ranges := List (Nat × Nat)

/-- Whether a character lies in one of the ranges. The search ends at the first range beyond it. -/
def Ranges.holds : Ranges → Char → Bool
  | [], _ => false
  | (first, last) :: rest, c =>
    if c.toNat < first then false else c.toNat ≤ last || Ranges.holds rest c

end Lisp.Text
