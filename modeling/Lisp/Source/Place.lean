/-!
# Places

The line and the column of a character of a text, both counted from one. A line ends after a line
feed, a carriage return (with a line feed after it the two are one end), a vertical tab, a form
feed, U+0085, U+2028 or U+2029. An end at the very end of the text opens no further line: the place
after it is one column past it.
-/

set_option autoImplicit false

namespace Lisp

/-- A line and a column, both counted from one. -/
structure Place where
  line : Nat
  column : Nat
  deriving DecidableEq, Repr

namespace Place

/-- The characters that end a line, a carriage return before a line feed excepted. -/
def isLineEnd (c : Char) : Bool :=
  c = '\n' || c = '\r' || c = '\x0b' || c = '\x0c' || c = '\u0085' || c = '\u2028' || c = '\u2029'

/-- Whether a further line starts after `c` when `rest` follows it. -/
def opensLine (c : Char) (rest : List Char) : Bool :=
  isLineEnd c && !rest.isEmpty && !(c = '\r' && rest.head? = some '\n')

/-- The place reached from `here` after `count` more characters. -/
def advance (here : Place) : List Char → (count : Nat) → Place
  | _, 0 => here
  | [], _ + 1 => here
  | c :: rest, count + 1 =>
    advance (if opensLine c rest then ⟨here.line + 1, 1⟩ else ⟨here.line, here.column + 1⟩)
      rest count

/-- The place of the character with the given index; an index at or beyond the length of the
text gives the place after its last character. -/
def ofCharIndex (text : List Char) (index : Nat) : Place :=
  advance ⟨1, 1⟩ text index

end Place

end Lisp
