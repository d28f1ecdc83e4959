import Lisp.FileRunner
import Lisp.Repl.Session

/-!
# The command

Runs the files named on the command line, or holds a session when it is called under the name
`repl`. Files and the whole input are read first, then the pure definitions of the library say what
to write and with which code to exit.
-/

set_option autoImplicit false

namespace Lisp

/-- As many steps as any run takes. -/
def ampleFuel : Nat := Nat.pow 2 62

def Report.plainText (r : Report) : String :=
  r.headline ++ "\n  at " ++ r.placeText ++ ": " ++ r.label ++ "\n"

def Notice.plainText : Notice → String
  | text t => t
  | report r => r.plainText

/-- Writes what a command leaves behind; gives its exit code. -/
def CommandResult.write (r : CommandResult) : IO UInt32 := do
  (← IO.getStdout).putStr r.output
  (← IO.getStderr).putStr (String.join (r.notices.map Notice.plainText))
  return UInt32.ofNat r.code

def loadFile (path : String) : IO (Except FileRunner.ReadFailure String) := do
  try
    return FileRunner.textOfBytes (← IO.FS.readBinFile path)
  catch
    | .noFileOrDirectory .. => return .error .missing
    | .inappropriateType .. => return .error .directory
    | failure => return .error (.other failure.toString)

partial def readToEnd (stream : IO.FS.Stream) (bytes : ByteArray) : IO ByteArray := do
  let more ← stream.read 65536
  if more.isEmpty then return bytes else readToEnd stream (bytes ++ more)

/-- Whether there is a record of earlier sessions. -/
def hasHistory : IO Bool := do
  let path := (← IO.getEnv "LISPER_HISTORY").getD ".lisper_history"
  try
    let _ ← IO.FS.readBinFile path
    return true
  catch _ => return false

end Lisp

open Lisp in
def main (args : List String) : IO UInt32 := do
  let input := Text.decode (← readToEnd (← IO.getStdin) .empty)
  let result ←
    if (← IO.appPath).fileName = some "repl" then
      pure (Repl.command ampleFuel (← hasHistory) input)
    else do
      let texts ← args.mapM fun path => return (path, ← loadFile path)
      let files : FileRunner.Files := fun path => (texts.lookup path).getD (.error .missing)
      pure (FileRunner.command ampleFuel files args input)
  match result with
  | some result => result.write
  | none => return 1
