import Lisp.Keyword
import Lisp.Source.Span
import Lisp.Store
import Lisp.Token.Lexer

/-!
# Completion

What may follow an unfinished name: the rest of every visible name and of every keyword that starts
with it.
-/

set_option autoImplicit false

namespace Lisp.Repl

/-- Candidates to be put into a line at byte `start`. -/
structure Completion where
  start : Nat
  candidates : List String
  deriving DecidableEq, Repr

def lineUpTo (line : String) (position : Nat) : String :=
  .ofList (line.toList.take ((charIndex? line.toList position).getD line.length))

/-- The atom that ends a text, if its last token is one and reaches to its end. -/
def finalAtom? (text : String) : Option String :=
  match (tokenize text).getLast? with
  | some ⟨.atom name, span⟩ => if span.stop = text.utf8ByteSize then some name else none
  | _ => none

/-- What follows `start` in a text that begins with it. -/
def dropStart? : (start text : List Char) → Option (List Char)
  | [], text => some text
  | _ :: _, [] => none
  | s :: start, c :: text => if s = c then dropStart? start text else none

/-- What has to follow `start` to make `name`, unless that is nothing. -/
def remainder? (start name : String) : Option String :=
  match dropStart? start.toList name.toList with
  | some [] => none
  | some rest => some (.ofList rest)
  | none => none

/-- The names that can be completed to in a frame, in ascending order: what some visible frame
binds, and the keywords. -/
def completable (s : Store) (f : FrameId) : List String :=
  (Dict.ofList ((s.identifiers f ++ Keyword.names).map fun name => (name, ()))).keys

/-- The completions of the atom before a byte position of a line. -/
def complete (s : Store) (f : FrameId) (line : String) (position : Nat) : Completion :=
  match finalAtom? (lineUpTo line position) with
  | none => ⟨position, []⟩
  | some start => ⟨position, (completable s f).filterMap (remainder? start)⟩

end Lisp.Repl
