/-!
# Quoted text

The written form of strings: between double quotes, with a backslash before a double quote and a
backslash, and letters for line feed, carriage return and tab. Reading also accepts a backslash
before any other character and keeps both.
-/

set_option autoImplicit false

namespace Lisp.Text

/-- The characters that stand for one character inside quotes. -/
def escape (c : Char) : List Char :=
  if c = '"' then ['\\', '"']
  else if c = '\\' then ['\\', '\\']
  else if c = '\n' then ['\\', 'n']
  else if c = '\r' then ['\\', 'r']
  else if c = '\t' then ['\\', 't']
  else [c]

def quote (s : String) : String :=
  .ofList ('"' :: s.toList.flatMap escape ++ ['"'])

/-- What a backslash and the character after it stand for. -/
def unescapePair (c : Char) : List Char :=
  if c = '"' then ['"']
  else if c = '\\' then ['\\']
  else if c = 'n' then ['\n']
  else if c = 't' then ['\t']
  else if c = 'r' then ['\r']
  else ['\\', c]

/-- Decodes the text between the quotes of a string. -/
def unescape : List Char → List Char
  | [] => []
  | ['\\'] => ['\\']
  | '\\' :: c :: rest => unescapePair c ++ unescape rest
  | c :: rest => c :: unescape rest

/-- The text between the quotes of a string token, or `none` when the closing quote is missing:
the token must end in a quote of its own, before which an even run of backslashes stands. This is
about tokens that start with a character of a single byte, which in every text is the opening quote;
that character is not looked at. -/
def body? (token : List Char) : Option (List Char) :=
  if token.length < 2 || token.getLast? ≠ some '"' then none
  else
    let body := (token.drop 1).dropLast
    if (body.reverse.takeWhile (· = '\\')).length % 2 = 1 then none else some body

/-- The string that a string token denotes, or `none` when its closing quote is missing. -/
def unquote? (token : String) : Option String :=
  (body? token.toList).map fun body => .ofList (unescape body)

end Lisp.Text
