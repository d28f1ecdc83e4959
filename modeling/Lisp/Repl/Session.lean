import Lisp.Program
import Lisp.Repl.Backspace
import Lisp.Repl.Balance
import Lisp.Report
import Lisp.Text.Blank

/-!
# Sessions

A dialogue with a user whose input is a stream of lines. Lines are collected until they make a
whole entry, which is then evaluated, and its value or error is shown. A rejected entry is kept, so
everything after it is rejected too, unless backspaces take back what was wrong with it. Programs
read from the same input: the first of them that reads a line takes all input that is left, and the
dialogue then sees the end of its input.
-/

set_option autoImplicit false

namespace Lisp.Repl

def greeting : String :=
  "Lisper REPL v0.1.0\nType 'exit' or press Ctrl-D to quit.\n"

/-- What a session says when it has no record of earlier ones. -/
def noHistory : String := "No previous history.\n"

/-- What a session says at the end of its input. -/
def farewell : String := "\nExiting.\n"

/-- What a session says when a line of its input is not text. -/
def malformedInput : String :=
  "Readline Error: Io(Error \x7b kind: InvalidData, message: \""
    ++ StreamError.malformed.message ++ "\" \x7d)\n"

/-- The name of an entry in reports. -/
def entryName : String := "repl"

/-- The state of a session: the store, in which the session uses the streams of frame zero, the
lines of an entry that is not whole yet, whether a program has taken the rest of the input, and the
notices so far, the last one first. -/
structure Session where
  store : Store
  unfinished : List Char
  inputTaken : Bool
  notices : List Notice

namespace Session

def note (s : Session) (notice : Notice) : Session :=
  { s with notices := notice :: s.notices }

def say (s : Session) (text : String) : Session :=
  { s with store := (s.store.writeOutput 0 text).2 }

/-- Moves what has been written to the diagnostic buffer among the notices. -/
def noteDiagnostics (s : Session) : Session :=
  let (text, store) := s.store.drain 1
  { s with store := store, notices := .text text :: s.notices }

/-- The lines that the session itself can still read. -/
def input (s : Session) : List Text.Item :=
  if s.inputTaken then [] else (s.store.console 0).input

/-- Evaluates an entry and shows its value or the report of its parse error. When a program has
read from the input, the rest of the input is its. -/
def evaluateEntry (fuel : Nat) (s : Session) (entry : String) : Option Session :=
  let before := (s.store.console 0).input.length
  match runText fuel entry 0 s.store with
  | none => none
  | some (result, store) =>
    let taken := s.inputTaken || (store.console 0).input.length < before
    let s := { s with store := store, inputTaken := taken }
    match result with
    | .error cause => some (s.note (.report (cause.report entryName entry)))
    | .ok value =>
      match printResult value 0 s.store with
      | (none, store) => some { s with store := store }.noteDiagnostics
      | (some failure, store) =>
        some ({ s with store := store }.note (.text ("Output Error: " ++ failure.message ++ "\n")))

/-- Splits the end of its last line off a text: a line feed, with a carriage return before it if
there is one. -/
def splitTerminator (cs : List Char) : List Char × List Char :=
  match cs.reverse with
  | '\n' :: '\r' :: rest => (rest.reverse, ['\r', '\n'])
  | '\n' :: rest => (rest.reverse, ['\n'])
  | _ => (cs, [])

/-- Whether an entry asks for the end of the session. -/
def isExit (entry : List Char) : Bool :=
  entry.map Char.toLower = "exit".toList

inductive Turn where
  | running (session : Session)
  | over (session : Session)

/-- Deals with a whole entry: white space around it does not count, and an empty one is passed
over. -/
def handleEntry (fuel : Nat) (s : Session) (entry : List Char) : Option Turn :=
  let trimmed := Text.trim entry
  if trimmed.isEmpty then some (.running s)
  else if isExit trimmed then some (.over s)
  else (s.evaluateEntry fuel (.ofList trimmed)).map .running

/-- Reads a line and deals with the entry that it completes, if it does. -/
def turn (fuel : Nat) (s : Session) : Option Turn :=
  match s.input with
  | [] => some (.over (s.say farewell))
  | items =>
    let (line, rest) := Text.splitLine items
    let s := { s with store := s.store.modifyConsole 0 fun c => { c with input := rest } }
    match line.mapM Text.Item.char? with
    | none => some (.over (s.note (.text malformedInput)))
    | some cs =>
      let (typed, terminator) := splitTerminator (s.unfinished ++ cs)
      let entry := applyBackspaces typed
      match judge entry with
      | .valid => { s with unfinished := [] }.handleEntry fuel entry
      | .incomplete => some (.running { s with unfinished := entry ++ terminator })
      | .invalid closer position =>
        some (.running ({ s with unfinished := entry }.note
          (.text (unmatchedMessage closer position))))

/-- Takes turns until the session is over. Each turn but the last consumes a line, so one more turn
than there are items of input suffices. -/
def converse (fuel : Nat) : (turns : Nat) → Session → Option Session
  | 0, s => some s
  | turns + 1, s =>
    match s.turn fuel with
    | none => none
    | some (.over s) => some s
    | some (.running s) => converse fuel turns s

def start (hasHistory : Bool) (input : List Text.Item) : Session :=
  let s : Session := ⟨Store.initial input true, [], false, []⟩
  let s := s.say greeting
  if hasHistory then s else s.say noHistory

end Session

def command (fuel : Nat) (hasHistory : Bool) (input : List Text.Item) : Option CommandResult :=
  (Session.converse fuel (input.length + 1) (Session.start hasHistory input)).map fun s =>
    ⟨0, s.store.bufferText 0, s.notices.reverse⟩

end Lisp.Repl
