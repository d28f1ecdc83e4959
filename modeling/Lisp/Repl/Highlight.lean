import Lisp.Repl.Balance

/-!
# Highlighted lines

A line with colours for the terminal. Strings are green; a closing bracket without a partner is
red, and so is one of the wrong kind together with the bracket it closes; the pair of brackets that
the cursor stands behind is blue. Comments are not treated specially.

A line is drawn from left to right, with an opening bracket plain at first. The closing bracket that
it turns out to belong to may have it drawn anew, in the place where it stands in the drawing.
-/

set_option autoImplicit false

namespace Lisp.Repl

inductive Style where
  | plain
  | string
  | wrongCloser
  | wrongOpener
  | pairCloser
  | pairOpener
  deriving DecidableEq, Repr

namespace Style

def code? : Style → Option String
  | plain => none
  | string => some "32"
  | wrongCloser => some "31"
  | wrongOpener => some "1;31"
  | pairCloser => some "34"
  | pairOpener => some "1;34"

/-- What switches a style on. The plain one needs nothing. -/
def start (style : Style) : List Char :=
  match style.code? with
  | none => []
  | some code => '\x1b' :: '[' :: (code.toList ++ ['m'])

/-- What switches a style off. -/
def stop (style : Style) : List Char :=
  match style.code? with
  | none => []
  | some _ => ['\x1b', '[', '0', 'm']

/-- A character drawn in a style. -/
def paint (style : Style) (c : Char) : List Char :=
  style.start ++ c :: style.stop

end Style

/-- An opening bracket that waits for its partner, with the byte positions at which it stands in the
line and in the drawing. -/
structure OpenBracket where
  bracket : Bracket
  position : Nat
  drawnAt : Nat
  deriving DecidableEq, Repr

/-- A line of which the characters before byte `position` have been drawn. The open brackets among
them are listed from the innermost. -/
structure Drawing where
  region : Region
  opened : List OpenBracket
  position : Nat
  drawn : List Char
  deriving DecidableEq, Repr

/-- Puts a replacement in the place of the character at a byte position, where a character of a
single byte has to stand. -/
def replaceByte? (replacement : List Char) : List Char → Nat → Option (List Char)
  | [], _ => none
  | c :: rest, 0 => if c.utf8Size = 1 then some (replacement ++ rest) else none
  | c :: rest, place + 1 =>
    if c.utf8Size ≤ place + 1 then
      (replaceByte? replacement rest (place + 1 - c.utf8Size)).map (c :: ·)
    else none

namespace Drawing

def blank : Drawing := ⟨.code, [], 0, []⟩

/-- Draws the next character of the line. -/
def add (d : Drawing) (region : Region) (style : Style) (c : Char) : Drawing :=
  ⟨region, d.opened, d.position + c.utf8Size, d.drawn ++ style.paint c⟩

/-- Draws a bracket anew that is in the drawing already. -/
def redraw? (d : Drawing) (opening : OpenBracket) (style : Style) : Option Drawing :=
  (replaceByte? (style.paint opening.bracket.opener) d.drawn opening.drawnAt).map
    fun drawn => { d with drawn }

/-- Draws the next character of a line, and the opening bracket anew that it meets. -/
def step? (cursor : Option Nat) (d : Drawing) (c : Char) : Option Drawing :=
  match d.region with
  | .string escaped => some (d.add (afterStringChar escaped c) .string c)
  | _ =>
    if c = '"' then some (d.add (.string false) .string c)
    else
      match Bracket.ofOpener? c, Bracket.ofCloser? c with
      | some b, _ =>
        some { d.add .code .plain c with
          opened := ⟨b, d.position, byteLength d.drawn⟩ :: d.opened }
      | none, none => some (d.add .code .plain c)
      | none, some b =>
        match d.opened with
        | [] => some (d.add .code .wrongCloser c)
        | top :: outer =>
          let inside : Drawing := { d with opened := outer }
          if top.bracket ≠ b then (inside.add .code .wrongCloser c).redraw? top .wrongOpener
          else if cursor = some top.position || cursor = some d.position then
            (inside.add .code .pairCloser c).redraw? top .pairOpener
          else some (inside.add .code .plain c)

end Drawing

/-- The drawing of a line; there is none if a bracket is not found where it was drawn. -/
def draw? (cursor : Option Nat) (line : List Char) : Option Drawing :=
  line.foldlM (Drawing.step? cursor) .blank

/-- The byte position of the character that a cursor stands behind. -/
def behindCursor (position : Nat) : Option Nat :=
  if position = 0 then none else some (position - 1)

/-- A line with colours, for a cursor at a byte position. -/
def highlight (line : String) (position : Nat) : String :=
  match draw? (behindCursor position) line.toList with
  | some d => .ofList d.drawn
  | none => line

end Lisp.Repl
