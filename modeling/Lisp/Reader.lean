import Lisp.Reader.Form
import Lisp.Token.Lexer

/-!
# The reader

Expressions are read from a list of tokens, one token at a time, with the constructs still open
kept on a stack. An expression is complete as soon as its last token has been seen, and an error is
found at the first token that cannot continue any expression; the tokens after it stay unread.
-/

set_option autoImplicit false

namespace Lisp

inductive OpenForm where
  /-- A bracket that was opened at `start`, and the items read since, the last one first. -/
  | sequence (bracket : Bracket) (start : Span) (items : List Value)
  /-- A mark that waits for its expression. -/
  | marked (marker : Marker)

namespace OpenForm

/-- What has to come when no further expression does. -/
def awaited : OpenForm → Expectation
  | sequence bracket _ _ => .closer bracket
  | marked marker => .operand marker

end OpenForm

/-- The constructs that are open, the innermost first. -/
abbrev OpenForms := List OpenForm

/-- Where the reader stands after a complete expression or an opening token. -/
inductive ReadState where
  | complete (form : Value)
  | waiting (opened : OpenForms)

/-- Hands a complete expression to the innermost open construct. A mark is complete with it, so
its form is handed on; outside all constructs the expression stands for itself. -/
def attach (form : Value) : OpenForms → ReadState
  | [] => .complete form
  | .marked m :: outer => attach (.list [.symbol m.keyword, form]) outer
  | .sequence b start items :: outer => .waiting (.sequence b start (form :: items) :: outer)

def closeSequence (bracket : Bracket) (span : Span) (items : List Value) :
    Except ParseError Value :=
  match bracket with
  | .round => .ok (.list (expandDefinition items))
  | .square => .ok (.list items)
  | .curly => (hashLiteral items).mapError (.invalidHash span)

/-- What a closing token does: it completes the sequence that the same kind of bracket opened. -/
def readCloser (b : Bracket) (token : Token) : OpenForms → Except ParseError ReadState
  | .sequence opened start items :: outer =>
    if opened = b then
      (closeSequence b (start.merge token.span) items.reverse).map (attach · outer)
    else .error (.unexpectedToken token (.closer opened))
  | _ => .error (.unexpectedToken token .expression)

/-- What a token does when the constructs `opened` are open. -/
def readToken (token : Token) (opened : OpenForms) : Except ParseError ReadState :=
  match token.kind with
  | .opening b => .ok (.waiting (.sequence b token.span [] :: opened))
  | .closing b => readCloser b token opened
  | .mark m => .ok (.waiting (.marked m :: opened))
  | .string text =>
    match Text.unquote? text with
    | some s => .ok (attach (.string s) opened)
    | none => .error (.unterminatedString token.span)
  | .atom text => .ok (attach (.ofAtom text) opened)

/-- The outcome of reading one expression: the expression, nothing when no token is left, or an
error. -/
abbrev ReadResult := Except ParseError (Option Value)

/-- Reads on until an expression is complete; gives the outcome and the unread tokens. -/
def readWith : OpenForms → List Token → ReadResult × List Token
  | [], [] => (.ok none, [])
  | o :: _, [] => (.error (.unexpectedEnd o.awaited), [])
  | opened, token :: rest =>
    match readToken token opened with
    | .error e => (.error e, rest)
    | .ok (.complete form) => (.ok (some form), rest)
    | .ok (.waiting opened') => readWith opened' rest

/-- Reads the first expression of a list of tokens; gives the outcome and the unread tokens. -/
def readOne (tokens : List Token) : ReadResult × List Token :=
  readWith [] tokens

/-- Reads expressions until none is left, going on after errors; the last outcome is the end. Each
round consumes a token, so one more round than there are tokens suffices. -/
def readSteps : (rounds : Nat) → List Token → List (ReadResult × List Token)
  | 0, _ => []
  | rounds + 1, tokens =>
    match readOne tokens with
    | (.ok none, rest) => [(.ok none, rest)]
    | step => step :: readSteps rounds step.2

/-- The expressions at the front of a list of tokens, and the first error if there is one. -/
def readForms : (rounds : Nat) → List Token → List Value × Option ParseError
  | 0, _ => ([], none)
  | rounds + 1, tokens =>
    match readOne tokens with
    | (.ok none, _) => ([], none)
    | (.error e, _) => ([], some e)
    | (.ok (some form), rest) =>
      let (forms, failure) := readForms rounds rest
      (form :: forms, failure)

/-- A text as a program: its expressions up to the first error, and that error. -/
structure Script where
  forms : List Value
  failure : Option ParseError

def Script.ofText (source : String) : Script :=
  let tokens := tokenize source
  let (forms, failure) := readForms tokens.length tokens
  ⟨forms, failure⟩

/-- All expressions of a text, or the first error. -/
def readAll (source : String) : Except ParseError (List Value) :=
  let script := Script.ofText source
  match script.failure with
  | some e => .error e
  | none => .ok script.forms

/-- The first expression of a text; what follows it is not looked at. -/
def readFirst (source : String) : ReadResult :=
  (readOne (tokenize source)).1

end Lisp
