/-!
# Spans

A span is a half-open range of byte offsets in a source text.
-/

set_option autoImplicit false

namespace Lisp

/-- The bytes from `start` up to but excluding `stop`. -/
structure Span where
  start : Nat
  stop : Nat
  deriving DecidableEq, Repr, Inhabited

namespace Span

def zero : Span := ⟨0, 0⟩

def merge (a b : Span) : Span :=
  ⟨min a.start b.start, max a.stop b.stop⟩

def text (s : Span) : String :=
  toString s.start ++ ".." ++ toString s.stop

end Span

/-- The number of bytes that the characters take in UTF-8. -/
def byteLength : List Char → Nat
  | [] => 0
  | c :: cs => c.utf8Size + byteLength cs

/-- The number of characters that fill exactly the first `bytes` bytes of a text; `none` when the
offset is inside a character or beyond the end. -/
def charIndex? : List Char → (bytes : Nat) → Option Nat
  | _, 0 => some 0
  | [], _ + 1 => none
  | c :: cs, bytes + 1 =>
    if c.utf8Size ≤ bytes + 1 then (charIndex? cs (bytes + 1 - c.utf8Size)).map (· + 1)
    else none

end Lisp
