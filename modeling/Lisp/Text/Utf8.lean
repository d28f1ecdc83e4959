/-!
# Byte streams as text

Bytes are decoded character by character. A byte that is part of no well-formed character is kept
as a stray byte, so a stream that is not text everywhere can still be read line by line.
-/

set_option autoImplicit false

namespace Lisp.Text

/-- One item of a decoded byte stream. -/
inductive Item where
  | char (c : Char)
  | stray (byte : UInt8)
  deriving DecidableEq, Repr

def Item.char? : Item → Option Char
  | char c => some c
  | stray _ => none

/-- The items of the bytes from `position` on. Each round passes a byte, so as many rounds as
there are bytes suffice. -/
def decodeFrom (bytes : ByteArray) : (rounds position : Nat) → List Item
  | 0, _ => []
  | rounds + 1, position =>
    if inside : position < bytes.size then
      match bytes.utf8DecodeChar? position with
      | some c => .char c :: decodeFrom bytes rounds (position + c.utf8Size)
      | none => .stray bytes[position] :: decodeFrom bytes rounds (position + 1)
    else []

def decode (bytes : ByteArray) : List Item :=
  decodeFrom bytes bytes.size 0

def items (text : String) : List Item :=
  text.toList.map .char

/-- The text that the items hold, if none of them is a stray byte. -/
def ofItems? (items : List Item) : Option String :=
  (items.mapM Item.char?).map .ofList

/-- The items up to and including the first line feed, and the items after it. -/
def splitLine : List Item → List Item × List Item
  | [] => ([], [])
  | .char '\n' :: rest => ([.char '\n'], rest)
  | item :: rest =>
    let (line, after) := splitLine rest
    (item :: line, after)

end Lisp.Text
