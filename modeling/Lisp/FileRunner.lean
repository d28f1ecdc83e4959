import Lisp.Program
import Lisp.Report

/-!
# The file runner

Runs the programs in a list of files, one after another in one environment, and shows the value of
the last one. The first file that cannot be read or does not parse ends the run. The exit code
tells how the run ended.
-/

set_option autoImplicit false

namespace Lisp.FileRunner

structure Options where
  quiet : Bool
  paths : List String
  deriving DecidableEq, Repr

inductive UsageFault where
  | unknownOption (flag : String)
  | noFiles
  deriving DecidableEq, Repr

def UsageFault.message : UsageFault → String
  | unknownOption flag => "unknown option '" ++ flag ++ "'"
  | noFiles => "no input files"

def usage : String := "usage: lisper [--quiet] <file>..."

/-- Whether an argument asks for silence about a value that is no error. -/
def isQuietFlag (arg : String) : Bool :=
  arg = "-q" || arg = "--quiet"

/-- Whether an argument is an option rather than a path. -/
def isFlag (arg : String) : Bool :=
  arg.toList.head? = some '-'

/-- Reads the arguments from left to right; the first unknown option is the fault. -/
def readArgs : (args : List String) → (options : Options) → Except UsageFault Options
  | [], options => if options.paths.isEmpty then .error .noFiles else .ok options
  | arg :: rest, options =>
    if isQuietFlag arg then readArgs rest { options with quiet := true }
    else if isFlag arg then .error (.unknownOption arg)
    else readArgs rest { options with paths := options.paths ++ [arg] }

def Options.ofArgs (args : List String) : Except UsageFault Options :=
  readArgs args ⟨false, []⟩

inductive ReadFailure where
  | missing
  | directory
  | malformed
  | other (reason : String)
  deriving DecidableEq, Repr

def ReadFailure.message : ReadFailure → String
  | missing => "No such file or directory (os error 2)"
  | directory => "Is a directory (os error 21)"
  | malformed => StreamError.malformed.message
  | other reason => reason

def textOfBytes (bytes : ByteArray) : Except ReadFailure String :=
  match Text.ofItems? (Text.decode bytes) with
  | some text => .ok text
  | none => .error .malformed

/-- The texts of the files that paths lead to. -/
abbrev Files := String → Except ReadFailure String

inductive Ending where
  | value (value : Value)
  | unreadable (path : String) (failure : ReadFailure)
  | unparsable (path source : String) (cause : ParseError)

/-- Runs files in order in one frame; `last` is the value when there is none. -/
def runFiles (fuel : Nat) (files : Files) (frame : FrameId) :
    List String → Value → Store → Option (Ending × Store)
  | [], last, store => some (.value last, store)
  | path :: rest, _, store =>
    match files path with
    | .error failure => some (.unreadable path failure, store)
    | .ok source =>
      match runText fuel source frame store with
      | none => none
      | some (.error cause, store) => some (.unparsable path source cause, store)
      | some (.ok value, store) => runFiles fuel files frame rest value store

/-- The exit code of a run in which every program was a value. -/
def successCode : Nat := 0

/-- The exit code of a run that a parse error ended. -/
def parseFailureCode : Nat := 1

/-- The exit code of a run that a fault in the command line or a stream or file failure ended. -/
def streamFailureCode : Nat := 2

/-- The exit code of a run whose value is an error. -/
def errorValueCode : Nat := 3

/-- The notice of a failure, on a line of its own. -/
def complaint (message : String) : Notice :=
  .text ("lisper: " ++ message ++ "\n")

/-- How a run of files is concluded: its exit code, what the command itself has to say, and the
store after the value has been shown. -/
def conclude (quiet : Bool) (frame : FrameId) (ending : Ending) (store : Store) :
    Nat × List Notice × Store :=
  match ending with
  | .unreadable path failure =>
    (streamFailureCode, [complaint ("cannot read " ++ path ++ ": " ++ failure.message)], store)
  | .unparsable path source cause =>
    (parseFailureCode, [.report (cause.report path source)], store)
  | .value last =>
    let code := if last.isError then errorValueCode else successCode
    if quiet && !last.isError then (code, [], store)
    else
      match printResult last frame store with
      | (none, store) => (code, [], store)
      | (some failure, store) => (streamFailureCode, [complaint failure.message], store)

/-- Runs the command with the given arguments in a global frame of a store: exit code, notices of
the command itself, and the store afterwards. -/
def execute (fuel : Nat) (files : Files) (args : List String) (frame : FrameId) (store : Store) :
    Option (Nat × List Notice × Store) :=
  match Options.ofArgs args with
  | .error fault =>
    some (streamFailureCode, [complaint (fault.message ++ "\n" ++ usage)], store)
  | .ok options =>
    (runFiles fuel files frame options.paths .nil store).map fun (ending, store) =>
      conclude options.quiet frame ending store

/-- Runs the command on fresh streams with the given input. Programs write diagnostics only at the
end of a run, so these come first among the notices. -/
def command (fuel : Nat) (files : Files) (args : List String) (input : List Text.Item) :
    Option CommandResult :=
  (execute fuel files args 0 (Store.initial input true)).map fun (code, notices, store) =>
    ⟨code, store.bufferText 0, .text (store.bufferText 1) :: notices⟩

end Lisp.FileRunner
