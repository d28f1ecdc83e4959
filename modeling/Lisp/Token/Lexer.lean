import Lisp.Token

/-!
# Lexical structure

How a text is divided into tokens. Separators and comments stand between tokens and leave no
trace. No text is rejected: every character that starts nothing else starts an atom, and a string
that is not closed is a token as well. That token goes on to the end of the text, or only to a
backslash that stands there or before a line feed; such a backslash starts an atom.
-/

set_option autoImplicit false

namespace Lisp

def isSeparator (c : Char) : Bool :=
  c = ' ' || c = '\t' || c = '\n' || c = '\r' || c = '\x0c' || c = ','

/-- The characters before which a comment ends. -/
def endsComment (c : Char) : Bool :=
  c = '\n' || c = '\r'

/-- The characters that may continue an atom: all but separators, brackets, quotes, the
quasiquote mark and the start of a comment. -/
def continuesAtom (c : Char) : Bool :=
  !(isSeparator c || (Bracket.ofOpener? c).isSome || (Bracket.ofCloser? c).isSome
    || c = ';' || c = '\x27' || c = '\x60' || c = '"')

/-- The characters that may start an atom; the unquote mark may only continue one. -/
def startsAtom (c : Char) : Bool :=
  continuesAtom c && c ≠ '~'

/-- Divides what follows an opening quote into the rest of the string token, its closing quote
included, and what comes after. A backslash belongs to the string together with the character
after it; one before a line feed or at the end of the text ends the token before itself. -/
def splitString : List Char → List Char × List Char
  | [] => ([], [])
  | '"' :: rest => (['"'], rest)
  | '\\' :: '\n' :: rest => ([], '\\' :: '\n' :: rest)
  | ['\\'] => ([], ['\\'])
  | '\\' :: c :: rest =>
    let (inside, after) := splitString rest
    ('\\' :: c :: inside, after)
  | c :: rest =>
    let (inside, after) := splitString rest
    (c :: inside, after)

/-- The token that starts with a character that is neither a separator nor the start of a comment,
and what comes after it. -/
def scanToken (c : Char) (rest : List Char) : TokenKind × List Char :=
  match Bracket.ofOpener? c, Bracket.ofCloser? c with
  | some b, _ => (.opening b, rest)
  | none, some b => (.closing b, rest)
  | none, none =>
    if c = '\x27' then (.mark .quote, rest)
    else if c = '\x60' then (.mark .quasiquote, rest)
    else if c = '~' then
      match rest with
      | '@' :: more => (.mark .splice, more)
      | _ => (.mark .unquote, rest)
    else if c = '"' then
      let (inside, after) := splitString rest
      (.string (.ofList ('"' :: inside)), after)
    else
      (.atom (.ofList (c :: rest.takeWhile continuesAtom)), rest.dropWhile continuesAtom)

/-- The tokens of a text that starts at byte `offset`. Each round consumes a character, so as many
rounds as there are characters suffice. -/
def tokensFrom : (rounds offset : Nat) → List Char → List Token
  | 0, _, _ => []
  | _, _, [] => []
  | rounds + 1, offset, c :: rest =>
    if isSeparator c then tokensFrom rounds (offset + c.utf8Size) rest
    else if c = ';' then
      let comment := c :: rest.takeWhile (!endsComment ·)
      tokensFrom rounds (offset + byteLength comment) (rest.dropWhile (!endsComment ·))
    else
      let (kind, after) := scanToken c rest
      let stop := offset + kind.text.utf8ByteSize
      ⟨kind, ⟨offset, stop⟩⟩ :: tokensFrom rounds stop after

def tokenize (source : String) : List Token :=
  tokensFrom source.toList.length 0 source.toList

end Lisp
