import Lisp.Proofs.Store.Scope

/-! What a call does is settled by the procedure, the arguments and the store. Of the frame from
which it is made only the console matters: its bindings are out of sight of the procedure. -/

set_option autoImplicit false

namespace Lisp

namespace Store

/-- The frames of the first store are all in the second, each enclosed in the same frame and on the
same console. -/
def KeepsFrames (before after : Store) : Prop :=
  ∀ (f : FrameId) (frame : Frame), before.frames[f]? = some frame →
    ∃ later, after.frames[f]? = some later ∧ later.outer = frame.outer ∧
      later.console = frame.console

/-- Two frames of the store share a console. -/
structure SameConsole (s : Store) (first second : FrameId) : Prop where
  firstPresent : first < s.frames.size
  secondPresent : second < s.frames.size
  shared : s.consoleOf first = s.consoleOf second

namespace KeepsFrames

variable {before middle after : Store}

theorem refl (s : Store) : KeepsFrames s s :=
  fun _ frame present => ⟨frame, present, rfl, rfl⟩

theorem trans (first : KeepsFrames before middle) (second : KeepsFrames middle after) :
    KeepsFrames before after := by
  intro f frame present
  obtain ⟨between, presentBetween, outerBetween, consoleBetween⟩ := first f frame present
  obtain ⟨later, presentLater, outer, console⟩ := second f between presentBetween
  exact ⟨later, presentLater, outer.trans outerBetween, console.trans consoleBetween⟩

theorem of_frames (same : after.frames = before.frames) : KeepsFrames before after :=
  fun _ frame present => ⟨frame, by rwa [same], rfl, rfl⟩

theorem define (s : Store) (f : FrameId) (name : String) (value : Value) :
    KeepsFrames s (s.define f name value) := by
  intro g frame present
  rw [define_frame, present]
  split
  · exact ⟨_, rfl, rfl, rfl⟩
  · exact ⟨_, rfl, rfl, rfl⟩

theorem addAlias (s : Store) (f : FrameId) (synonym meaning : String) :
    KeepsFrames s (s.addAlias f synonym meaning) := by
  intro g frame present
  rw [addAlias_frame, present]
  split
  · exact ⟨_, rfl, rfl, rfl⟩
  · exact ⟨_, rfl, rfl, rfl⟩

theorem addChild (s : Store) (outer : FrameId) (bindings : Dict Value) :
    KeepsFrames s (s.addChild outer bindings).2 := by
  intro f frame present
  have old : f < s.frames.size := (Array.getElem?_eq_some_iff.mp present).1
  rw [addChild_frame s outer bindings old]
  exact ⟨frame, present, rfl, rfl⟩

theorem lt_size {f : FrameId} (keeps : KeepsFrames before after)
    (present : f < before.frames.size) : f < after.frames.size := by
  obtain ⟨later, found, -⟩ := keeps f _ (Array.getElem?_eq_getElem present)
  exact (Array.getElem?_eq_some_iff.mp found).1

theorem consoleOf_eq {f : FrameId} (keeps : KeepsFrames before after)
    (present : f < before.frames.size) : after.consoleOf f = before.consoleOf f := by
  have found : before.frames[f]? = some before.frames[f] := Array.getElem?_eq_getElem present
  obtain ⟨later, foundLater, -, console⟩ := keeps f _ found
  rw [consoleOf, consoleOf, found, foundLater]
  exact console

end KeepsFrames

theorem respected_keepsFrames : Direct.Respected fun _ => KeepsFrames where
  refl _ := KeepsFrames.refl
  trans := KeepsFrames.trans
  define frame store name value := .define store frame name value
  assign value _ := .define _ _ _ value
  addAlias frame store synonym meaning := .addAlias store frame synonym meaning
  writeOutput frame store text := .of_frames (writeOutput_frames store frame text)
  readLine _ _ := .of_frames rfl
  leave inside := (KeepsFrames.addChild _ _ _).trans inside

namespace SameConsole

variable {s after : Store} {first second : FrameId}

theorem later (same : SameConsole s first second) (keeps : KeepsFrames s after) :
    SameConsole after first second where
  firstPresent := keeps.lt_size same.firstPresent
  secondPresent := keeps.lt_size same.secondPresent
  shared := by
    rw [keeps.consoleOf_eq same.firstPresent, keeps.consoleOf_eq same.secondPresent, same.shared]

theorem writeOutput_eq (same : SameConsole s first second) (text : String) :
    s.writeOutput first text = s.writeOutput second text := by
  rw [writeOutput, writeOutput, console, console, same.shared]

theorem readLine_eq (same : SameConsole s first second) : s.readLine first = s.readLine second := by
  simp only [readLine, modifyConsole, console, same.shared]

end SameConsole

end Store

namespace Direct

open Store

variable {recur : Recursion} {store : Store} {first second : FrameId}

/-- The recursive calls keep the consoles of all frames, and are the same from frames that share
one. -/
structure IgnoresCaller (recur : Recursion) : Prop where
  keeps : RecursionKeeps (fun _ => KeepsFrames) recur
  call : ∀ {store first second}, SameConsole store first second → ∀ callee args,
    recur.call callee args first store = recur.call callee args second store

namespace IgnoresCaller

theorem mapItems (ignores : IgnoresCaller recur) (same : SameConsole store first second)
    (callee : Procedure Value) (items : List Value) :
    Direct.mapItems recur callee items first store =
      Direct.mapItems recur callee items second store := by
  induction items generalizing store with
  | nil => rfl
  | cons item rest ih =>
      simp only [Direct.mapItems, bind_apply, ignores.call same]
      refine Option.bind_congr fun (value, middle) called => ?_
      -- The call may change any binding and add frames, but the two frames go on sharing a console.
      have kept := ignores.keeps.call _ _ second store value middle called
      cases value with
      | error cause => rfl
      | _ => simp only [bind_apply, ih (same.later kept)]

theorem native (ignores : IgnoresCaller recur) (same : SameConsole store first second)
    (operation : Native) (args : List Value) :
    Direct.native recur operation args first store =
      Direct.native recur operation args second store := by
  rw [Direct.native, Direct.native]
  cases operation.reply args with
  | value result => rfl
  | write text => simp only [act_apply, same.writeOutput_eq]
  | readLine => simp only [act_apply, same.readLine_eq]
  | call callee args => exact ignores.call same callee args
  | each callee items => simp only [bind_apply, ignores.mapItems same]

/-- The body of a closure runs in a frame within the closure's own, so only native operations see
the frame of the call at all. -/
theorem callValue (ignores : IgnoresCaller recur) (same : SameConsole store first second)
    (callee : Value) (args : List Value) :
    Direct.call recur callee args first store = Direct.call recur callee args second store := by
  cases callee with
  | procedure p =>
      simp only [Direct.call, callProcedure, enter]
      cases p.callable with
      | native operation => exact ignores.native same operation args
      | closure closure => rfl
  | _ => rfl

end IgnoresCaller

theorem ignoresCaller_under (fuel : Nat) (limit : Limit) :
    IgnoresCaller (.under (run fuel) limit) := by
  induction fuel with
  | zero => exact ⟨respected_keepsFrames.under (respected_keepsFrames.run 0), fun _ _ _ => rfl⟩
  | succ fuel ih =>
      exact ⟨respected_keepsFrames.under (respected_keepsFrames.run (fuel + 1)),
        fun same callee args => ih.callValue same callee args⟩

theorem run_call_caller (same : SameConsole store first second) (fuel : Nat) (limit : Limit)
    (callee : Value) (args : List Value) :
    run fuel limit (.call callee args first) store =
      run fuel limit (.call callee args second) store :=
  (ignoresCaller_under fuel limit).call same callee args

end Direct

/-- A call has the same outcomes from any two frames that share a console: it ends from both or from
neither, with the same value, frames, output and remaining input. -/
theorem callWithin_caller {store : Store} {first second : FrameId}
    (same : store.SameConsole first second) (budget : Nat) (p : Procedure Value)
    (args : List Value) (outcome : Outcome) :
    (∃ fuel, callWithin budget fuel (.procedure p) args first store = some outcome) ↔
      ∃ fuel, callWithin budget fuel (.procedure p) args second store = some outcome := by
  simp only [callWithin_iff_run, Direct.run_call_caller same]

/-- A global frame, and two frames within it that bind other values to its names. -/
private def callersStore : Store :=
  ⟨#[⟨none, [("print", .procedure ⟨.native .print, false⟩), ("x", .bool true)], [], 0⟩,
    ⟨some 0, [("x", .nil)], [], 0⟩, ⟨some 0, [("print", .nil), ("x", .bool false)], [], 0⟩],
    #[⟨[], .buffer 0, .closed⟩], #[""]⟩

/-- Prints `x` and has its argument for its value. -/
private def printer : Value :=
  .procedure ⟨.closure ⟨["y"], .list [.symbol "begin", .list [.symbol "print", .symbol "x"],
    .symbol "y"], 0, none⟩, false⟩

private theorem sameConsole_callers : callersStore.SameConsole 1 2 :=
  ⟨by decide, by decide, rfl⟩

/-- The printer is mapped over a list from either frame, through `apply`. -/
theorem callWithin_caller_printer :
    callersStore.SameConsole 1 2 ∧ ∃ fuel after,
      callWithin 10 fuel (.procedure ⟨.native .apply, false⟩)
        [.procedure ⟨.native .map, false⟩, printer, .list [.list [.symbol "a", .symbol "b"]]] 2
        callersStore = some (.list [.symbol "a", .symbol "b"], after) ∧
      after.bufferText 0 = "#t#t" := by
  obtain ⟨fuel, called⟩ := (callWithin_caller sameConsole_callers 10 ⟨.native .apply, false⟩
    [.procedure ⟨.native .map, false⟩, printer, .list [.list [.symbol "a", .symbol "b"]]]
    (.list [.symbol "a", .symbol "b"], _)).mp ⟨60, rfl⟩
  exact ⟨sameConsole_callers, fuel, _, called, rfl⟩

end Lisp
