import Lisp.Console
import Lisp.Value

/-!
# The store

All state of a running program: the frames in which names are bound, the consoles that they use,
and the buffers in which written text collects. Frames are numbered in the order of their creation
and never vanish, and a frame is enclosed in an older one or in none, so following the enclosing
frames always ends.
-/

set_option autoImplicit false

namespace Lisp

/-- A scope: its own bindings, the aliases recorded in it, the frame that encloses it, and the
console that it shares with that frame. -/
structure Frame where
  outer : Option FrameId
  bindings : Dict Value
  aliases : Dict String
  console : ConsoleId
  deriving Inhabited

structure Store where
  frames : Array Frame
  consoles : Array Console
  buffers : Array String
  deriving Inhabited

namespace Store

def empty : Store := ⟨#[], #[], #[]⟩

/-! ## Frames -/

/-- The frames from `f` outward, at most `rounds` of them. -/
def chainFrom (s : Store) : (rounds : Nat) → FrameId → List FrameId
  | 0, _ => []
  | rounds + 1, f =>
    match s.frames[f]? with
    | none => []
    | some frame =>
      match frame.outer with
      | none => [f]
      | some outer => f :: chainFrom s rounds outer

/-- A frame and the frames that enclose it, the nearest first. Enclosing frames are older, so there
are at most as many as frames up to `f`. -/
def chain (s : Store) (f : FrameId) : List FrameId :=
  s.chainFrom (f + 1) f

def bindingsOf (s : Store) (f : FrameId) : Dict Value :=
  match s.frames[f]? with
  | some frame => frame.bindings
  | none => []

def aliasesOf (s : Store) (f : FrameId) : Dict String :=
  match s.frames[f]? with
  | some frame => frame.aliases
  | none => []

def consoleOf (s : Store) (f : FrameId) : ConsoleId :=
  match s.frames[f]? with
  | some frame => frame.console
  | none => 0

def own? (s : Store) (f : FrameId) (name : String) : Option Value :=
  (s.bindingsOf f).get? name

/-- The value of a name: that of the nearest frame that binds it. -/
def lookup? (s : Store) (f : FrameId) (name : String) : Option Value :=
  (s.chain f).findSome? fun g => s.own? g name

def addFrame (s : Store) (frame : Frame) : FrameId × Store :=
  (s.frames.size, { s with frames := s.frames.push frame })

/-- A new frame enclosed in `outer`, with the given bindings and the console of `outer`. -/
def addChild (s : Store) (outer : FrameId) (bindings : Dict Value) : FrameId × Store :=
  s.addFrame ⟨some outer, bindings, [], s.consoleOf outer⟩

def define (s : Store) (f : FrameId) (name : String) (value : Value) : Store :=
  { s with frames := s.frames.modify f fun frame =>
      { frame with bindings := frame.bindings.insert name value } }

/-- The frame in which an outer assignment takes place: the nearest strictly enclosing frame that
binds the name, or else the frame itself if it does. -/
def assignee? (s : Store) (f : FrameId) (name : String) : Option FrameId :=
  ((s.chain f).tail ++ [f]).find? fun g => (s.own? g name).isSome

/-- Gives a name that is bound in an enclosing frame, or else in the frame itself, a new value. -/
def assign? (s : Store) (f : FrameId) (name : String) (value : Value) : Option Store :=
  (s.assignee? f name).map fun g => s.define g name value

/-- Records in a frame that `synonym` was bound as another name for `meaning`. -/
def addAlias (s : Store) (f : FrameId) (synonym meaning : String) : Store :=
  { s with frames := s.frames.modify f fun frame =>
      { frame with aliases := frame.aliases.insert synonym meaning } }

/-- All bindings that are visible from a frame; inner ones hide outer ones. -/
def visible (s : Store) (f : FrameId) : Dict Value :=
  (s.chain f).foldr (fun g outer => outer.insertAll (s.bindingsOf g)) []

/-- All aliases that are visible from a frame; inner ones hide outer ones. -/
def visibleAliases (s : Store) (f : FrameId) : Dict String :=
  (s.chain f).foldr (fun g outer => outer.insertAll (s.aliasesOf g)) []

/-- All names that are bound in some frame visible from `f`, in ascending order. -/
def identifiers (s : Store) (f : FrameId) : List String :=
  let names : Dict Unit := (s.chain f).foldr
    (fun g outer => outer.insertAll ((s.bindingsOf g).keys.map fun name => (name, ()))) []
  names.keys

/-! ## Streams -/

def addBuffer (s : Store) : BufferId × Store :=
  (s.buffers.size, { s with buffers := s.buffers.push "" })

def bufferText (s : Store) (b : BufferId) : String :=
  match s.buffers[b]? with
  | some text => text
  | none => ""

/-- Empties a buffer; gives what was written into it. -/
def drain (s : Store) (b : BufferId) : String × Store :=
  (s.bufferText b, { s with buffers := s.buffers.modify b fun _ => "" })

/-- Adds a console with the given input and two new buffers; gives its number. -/
def addConsole (s : Store) (input : List Text.Item) : ConsoleId × Store :=
  let (output, s) := s.addBuffer
  let (diagnostic, s) := s.addBuffer
  (s.consoles.size,
    { s with consoles := s.consoles.push ⟨input, .buffer output, .buffer diagnostic⟩ })

/-- Writes text to a sink; gives the failure if there is one. A closed sink fails as soon as there
is something to write. -/
def write (s : Store) (sink : Sink) (text : String) : Option StreamError × Store :=
  match sink with
  | .buffer b => (none, { s with buffers := s.buffers.modify b (· ++ text) })
  | .closed => (if text.isEmpty then none else some .closed, s)

def console (s : Store) (f : FrameId) : Console :=
  match s.consoles[s.consoleOf f]? with
  | some console => console
  | none => ⟨[], .closed, .closed⟩

/-- Changes the console that a frame uses, for all frames that share it. -/
def modifyConsole (s : Store) (f : FrameId) (change : Console → Console) : Store :=
  let c := s.consoleOf f
  { s with consoles := s.consoles.modify c change }

def writeOutput (s : Store) (f : FrameId) (text : String) : Option StreamError × Store :=
  s.write (s.console f).output text

def writeDiagnostic (s : Store) (f : FrameId) (text : String) :
    Option StreamError × Store :=
  s.write (s.console f).diagnostic text

def readLine (s : Store) (f : FrameId) : Console.LineResult × Store :=
  let (result, rest) := Console.takeLine (s.console f).input
  (result, s.modifyConsole f fun console => { console with input := rest })

/-! ## Global frames -/

/-- A global frame on a console, with or without the native library. -/
def addGlobal (s : Store) (console : ConsoleId) (withNatives : Bool) : FrameId × Store :=
  let natives : Dict Value :=
    if withNatives then
      Dict.ofList (Native.all.map fun n => (n.name, .procedure ⟨.native n, false⟩))
    else []
  s.addFrame ⟨none, natives, [], console⟩

/-- A store with one global frame, numbered zero, on a console with the given input; buffers zero
and one hold its output and its diagnostics. -/
def initial (input : List Text.Item) (withNatives : Bool) : Store :=
  let (console, s) := empty.addConsole input
  (s.addGlobal console withNatives).2

end Store

end Lisp
