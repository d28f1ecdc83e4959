import Lisp.Token

/-!
# Balanced entries

Whether the text typed so far is a whole entry. Brackets are matched outside strings and comments.
An entry with a bracket or a string still open is incomplete, and one with a closing bracket that
matches no opening one is invalid from there on.
-/

set_option autoImplicit false

namespace Lisp.Repl

inductive Verdict where
  | valid
  | incomplete
  | invalid (closer : Char) (position : Nat)
  deriving DecidableEq, Repr

/-- The wording of an objection to a closing bracket at a byte position. -/
def unmatchedMessage (closer : Char) (position : Nat) : String :=
  "  - Unmatched '" ++ closer.toString ++ "' at position " ++ toString position

inductive Region where
  | code
  | comment
  /-- Inside a string; `escaped` when the last character was a backslash of its own. -/
  | string (escaped : Bool)
  deriving DecidableEq, Repr

/-- The region after a character inside a string. -/
def afterStringChar (escaped : Bool) (c : Char) : Region :=
  if escaped then .string false
  else if c = '\\' then .string true
  else if c = '"' then .code
  else .string false

/-- Judges the text from byte `position` on, with the brackets in `opened` still open, the
innermost first. -/
def judgeFrom (region : Region) (opened : List Bracket) (position : Nat) : List Char → Verdict
  | [] =>
    match region with
    | .string _ => .incomplete
    | _ => if opened.isEmpty then .valid else .incomplete
  | c :: rest =>
    let next := position + c.utf8Size
    match region with
    | .comment => judgeFrom (if c = '\n' then .code else .comment) opened next rest
    | .string escaped => judgeFrom (afterStringChar escaped c) opened next rest
    | .code =>
      if c = '"' then judgeFrom (.string false) opened next rest
      else if c = ';' then judgeFrom .comment opened next rest
      else
        match Bracket.ofOpener? c, Bracket.ofCloser? c with
        | some b, _ => judgeFrom .code (b :: opened) next rest
        | none, none => judgeFrom .code opened next rest
        | none, some b =>
          match opened with
          | [] => .invalid c position
          | top :: outer =>
            if top = b then judgeFrom .code outer next rest else .invalid c position

def judge (text : List Char) : Verdict :=
  judgeFrom .code [] 0 text

end Lisp.Repl
