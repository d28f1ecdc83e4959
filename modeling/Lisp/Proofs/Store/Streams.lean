import Lisp.Proofs.Machine.Discipline
import Lisp.Proofs.Machine.Lifting
import Lisp.Proofs.Store.Scope

/-! Evaluation reads its input by lines, appends to output streams and leaves all others alone. -/

set_option autoImplicit false

namespace Lisp

/-! ## Lines -/

namespace Text

/-- What is left of an input after lines have been taken off its front. Each of them is whole, up to
its line feed, which only the last line of the input may lack. -/
def LinesTaken (input rest : List Item) : Prop :=
  ∃ taken, input = taken ++ rest ∧
    (taken = [] ∨ taken.getLast? = some (.char '\n') ∨ rest = [])

theorem LinesTaken.refl (input : List Item) : LinesTaken input input :=
  ⟨[], rfl, .inl rfl⟩

theorem LinesTaken.trans {input middle rest : List Item} (first : LinesTaken input middle)
    (second : LinesTaken middle rest) : LinesTaken input rest := by
  obtain ⟨taken, rfl, whole⟩ := first
  obtain ⟨more, rfl, wholeMore⟩ := second
  refine ⟨taken ++ more, (List.append_assoc _ _ _).symm, ?_⟩
  rcases wholeMore with rfl | ended | finished
  · rw [List.append_nil]
    exact whole.imp_right fun other => other.imp_right fun none => (List.append_eq_nil_iff.mp none).2
  · exact .inr (.inl (by rw [List.getLast?_append, ended]; rfl))
  · exact .inr (.inr finished)

theorem splitLine_append (items : List Item) :
    (splitLine items).1 ++ (splitLine items).2 = items := by
  induction items using splitLine.induct with
  | case1 => rfl
  | case2 rest => rfl
  | case3 item rest notFeed line after found ih =>
      rw [splitLine.eq_3 item rest notFeed, List.cons_append, ih]

theorem splitLine_whole (items : List Item) :
    (splitLine items).1.getLast? = some (.char '\n') ∨ (splitLine items).2 = [] := by
  induction items using splitLine.induct with
  | case1 => exact .inr rfl
  | case2 rest => exact .inl rfl
  | case3 item rest notFeed line after found ih =>
      rw [splitLine.eq_3 item rest notFeed]
      refine ih.imp_left fun last => ?_
      rw [List.getLast?_cons, last]
      rfl

theorem splitLine_progress {items : List Item} (nonempty : items ≠ []) :
    (splitLine items).2.length < items.length := by
  have line : (splitLine items).1 ≠ [] := by
    rw [splitLine.eq_def]
    split
    · exact absurd rfl nonempty
    · exact List.cons_ne_nil _ _
    · exact List.cons_ne_nil _ _
  have split := congrArg List.length (splitLine_append items)
  rw [List.length_append] at split
  have positive := List.length_pos_iff.mpr line
  omega

theorem linesTaken_splitLine (items : List Item) : LinesTaken items (splitLine items).2 :=
  ⟨_, (splitLine_append items).symm, .inr (splitLine_whole items)⟩

end Text

theorem Console.linesTaken_takeLine (input : List Text.Item) :
    Text.LinesTaken input (takeLine input).2 := by
  cases input with
  | nil => exact .refl []
  | cons item rest =>
      have taken := Text.linesTaken_splitLine (item :: rest)
      rw [takeLine, if_neg (by simp)]
      dsimp only
      split <;> exact taken

/-! ## Effects on streams -/

namespace Store

def outputOf? (s : Store) (k : ConsoleId) : Option Sink :=
  s.consoles[k]?.map Console.output

/-- The text that collects in a buffer when texts are written to the outputs of consoles. -/
def collected (s : Store) (b : BufferId) : List (ConsoleId × String) → String
  | [] => ""
  | (k, text) :: rest =>
    if s.outputOf? k = some (.buffer b) then text ++ s.collected b rest else s.collected b rest

/-- The consoles are the same and have the same sinks; from their inputs lines have been taken, and
to buffers nothing has been added but what was written to their outputs. -/
structure Streams (before after : Store) : Prop where
  consoles : after.consoles.size = before.consoles.size
  kept : ∀ (k : ConsoleId) (console : Console), before.consoles[k]? = some console →
    ∃ later, after.consoles[k]? = some later ∧ later.output = console.output ∧
      later.diagnostic = console.diagnostic ∧ Text.LinesTaken console.input later.input
  written : ∃ writes : List (ConsoleId × String), ∀ b : BufferId,
    after.buffers[b]? = before.buffers[b]?.map fun text => text ++ before.collected b writes

variable {before middle after : Store}

theorem write_frames (s : Store) (sink : Sink) (text : String) :
    (s.write sink text).2.frames = s.frames := by
  cases sink <;> rfl

theorem write_consoles (s : Store) (sink : Sink) (text : String) :
    (s.write sink text).2.consoles = s.consoles := by
  cases sink <;> rfl

theorem collected_append (s : Store) (b : BufferId) (first second : List (ConsoleId × String)) :
    s.collected b (first ++ second) = s.collected b first ++ s.collected b second := by
  induction first with
  | nil => rw [List.nil_append, collected, String.empty_append]
  | cons write rest ih =>
      rw [List.cons_append, collected, collected, ih]
      split
      · exact String.append_assoc.symm
      · rfl

theorem collected_congr (same : ∀ k, after.outputOf? k = before.outputOf? k) (b : BufferId)
    (writes : List (ConsoleId × String)) : after.collected b writes = before.collected b writes := by
  induction writes with
  | nil => rfl
  | cons write rest ih => rw [collected, collected, same, ih]

theorem collected_unfed {b : BufferId} (unfed : ∀ k, before.outputOf? k ≠ some (.buffer b))
    (writes : List (ConsoleId × String)) : before.collected b writes = "" := by
  induction writes with
  | nil => rfl
  | cons write rest ih => rw [collected, if_neg (unfed _), ih]

namespace Streams

theorem of_same (consoles : after.consoles = before.consoles)
    (buffers : after.buffers = before.buffers) : Streams before after where
  consoles := by rw [consoles]
  kept k console present := ⟨console, by rwa [consoles], rfl, rfl, .refl _⟩
  written := ⟨[], fun b => by simp [buffers, collected]⟩

theorem refl (s : Store) : Streams s s :=
  of_same rfl rfl

theorem absent {k : ConsoleId} (streams : Streams before after)
    (missing : before.consoles[k]? = none) : after.consoles[k]? = none := by
  rw [Array.getElem?_eq_none_iff, streams.consoles]
  exact Array.getElem?_eq_none_iff.mp missing

theorem outputOf?_eq (streams : Streams before after) (k : ConsoleId) :
    after.outputOf? k = before.outputOf? k := by
  cases present : before.consoles[k]? with
  | some console =>
      obtain ⟨later, found, output, -⟩ := streams.kept k console present
      simp only [outputOf?, present, found, Option.map_some, output]
  | none => simp only [outputOf?, present, streams.absent present]

theorem linesTaken_console {f : FrameId} (streams : Streams before after)
    (same : after.consoleOf f = before.consoleOf f) :
    Text.LinesTaken (before.console f).input (after.console f).input := by
  simp only [console, same]
  cases present : before.consoles[before.consoleOf f]? with
  | some own =>
      obtain ⟨later, found, -, -, lines⟩ := streams.kept _ own present
      rwa [found]
  | none =>
      rw [streams.absent present]
      exact .refl []

theorem trans (first : Streams before middle) (second : Streams middle after) :
    Streams before after where
  consoles := second.consoles.trans first.consoles
  kept k console present := by
    obtain ⟨between, found, output, diagnostic, lines⟩ := first.kept k console present
    obtain ⟨later, foundLater, outputLater, diagnosticLater, more⟩ := second.kept k between found
    exact ⟨later, foundLater, outputLater.trans output, diagnosticLater.trans diagnostic,
      lines.trans more⟩
  written := by
    obtain ⟨writes, collects⟩ := first.written
    obtain ⟨more, collectsMore⟩ := second.written
    refine ⟨writes ++ more, fun b => ?_⟩
    rw [collectsMore, collects, Option.map_map]
    refine Option.map_congr fun text _ => ?_
    simp only [Function.comp_apply, collected_append, collected_congr first.outputOf?_eq,
      String.append_assoc]

theorem writeOutput (s : Store) (f : FrameId) (text : String) :
    Streams s (s.writeOutput f text).2 := by
  have consoles : (s.writeOutput f text).2.consoles = s.consoles := write_consoles s _ text
  refine ⟨by rw [consoles], fun k console present => ⟨console, by rwa [consoles], rfl, rfl, .refl _⟩,
    [(s.consoleOf f, text)], fun b => ?_⟩
  cases present : s.consoles[s.consoleOf f]? with
  | none => simp [Store.writeOutput, console, outputOf?, collected, write, present]
  | some console =>
      cases sink : console.output with
      | closed => simp [Store.writeOutput, Store.console, outputOf?, collected, write, present, sink]
      | buffer target =>
          by_cases same : target = b <;>
            simp [Store.writeOutput, Store.console, outputOf?, collected, write, present, sink, same,
              Array.getElem?_modify]

theorem readLine (s : Store) (f : FrameId) : Streams s (s.readLine f).2 where
  consoles := by simp [Store.readLine, modifyConsole]
  kept k console present := by
    simp only [Store.readLine, modifyConsole, Array.getElem?_modify, present]
    split
    · next same =>
        subst same
        have own : s.console f = console := by simp [Store.console, present]
        rw [own]
        exact ⟨_, rfl, rfl, rfl, Console.linesTaken_takeLine console.input⟩
    · exact ⟨console, rfl, rfl, rfl, .refl _⟩
  written := ⟨[], fun b => by simp [Store.readLine, modifyConsole, collected]⟩

/-- A buffer that no console's output goes to is left alone. -/
theorem unfed (streams : Streams before after) {b : BufferId}
    (none : ∀ k, before.outputOf? k ≠ some (.buffer b)) : after.buffers[b]? = before.buffers[b]? := by
  obtain ⟨writes, collects⟩ := streams.written
  simp only [collects, collected_unfed none, String.append_empty, Option.map_id']

theorem appended (streams : Streams before after) {b : BufferId} {text : String}
    (present : before.buffers[b]? = some text) :
    ∃ more, after.buffers[b]? = some (text ++ more) := by
  obtain ⟨writes, collects⟩ := streams.written
  exact ⟨before.collected b writes, by rw [collects, present, Option.map_some]⟩

end Streams

/-- Every store, frame and closure is in order; what is asked of a change is that streams are used as
they should be. -/
def streamDiscipline : Discipline where
  store _ := True
  frame _ _ := True
  closure _ _ := True
  change := Streams
  refl := Streams.refl
  trans := Streams.trans
  laterFrame _ _ := True.intro
  laterClosure _ _ := True.intro
  home _ := True.intro
  lambda _ _ _ _ := True.intro
  found _ _ _ _ := True.intro
  define _ _ _ _ := ⟨True.intro, .of_same rfl rfl⟩
  addAlias _ _ _ _ := ⟨True.intro, .of_same rfl rfl⟩
  addChild _ _ _ _ := ⟨True.intro, .of_same rfl rfl, True.intro⟩
  writeOutput f text _ := ⟨True.intro, .writeOutput _ f text⟩
  readLine f _ := ⟨True.intro, .readLine _ f⟩

theorem streams_of_reaches {form : Value} {frame : FrameId} {room : Nat} {state : State}
    (reached : State.Reaches ⟨.eval form frame, ⟨[], room, before⟩⟩ state) :
    Streams before state.context.store :=
  have start := @Discipline.holds_eval streamDiscipline before form frame True.intro
    (fun _ _ => True.intro) True.intro room
  (start.reaches reached).change

theorem streams_of_evaluateWithin {budget fuel : Nat} {form value : Value} {frame : FrameId}
    (ended : evaluateWithin budget fuel form frame before = some (value, after)) :
    Streams before after := by
  cases budget with
  | zero =>
      cases ended
      exact .refl before
  | succ room =>
      obtain ⟨_, reached⟩ := State.reaches_of_run ended
      exact streams_of_reaches reached

end Store

/-! ## Failing writes -/

/-- The operation, called with the arguments, has at least one byte to write. -/
def Native.WritesText (operation : Native) (args : List Value) : Prop :=
  ∃ text, operation.reply args = .write text ∧ text ≠ ""

/-- The next step of the machine is a call of a native operation, by an application or on behalf of
another operation. -/
def State.CallsNative (s : State) (operation : Native) (args : List Value) (frame : FrameId)
    (use : Use) : Prop :=
  s.step = .running (s.context.callNative operation args frame use)

theorem State.callsNative_operand (operation : Native) (isMacro : Bool) (done : List Value)
    (last : Value) (frame : FrameId) (c : Context) :
    CallsNative ⟨.resume (.operand ⟨.native operation, isMacro⟩ done [] frame) last, c⟩ operation
      (last :: done).reverse frame .answer :=
  rfl

/-- The call has an error for its value, and the machine goes on with all else as it was. -/
theorem Context.callNative_refused {c : Context} {operation : Native} {args : List Value}
    {frame : FrameId} {use : Use} (writes : operation.WritesText args)
    (refused : c.store.outputOf? (c.store.consoleOf frame) = some .closed) :
    c.callNative operation args frame use =
      ⟨.yield use (.error (.stream operation.name .closed)), c⟩ := by
  obtain ⟨text, reply, nonempty⟩ := writes
  obtain ⟨console, present, closed⟩ := Option.map_eq_some_iff.mp refused
  have filled : text.isEmpty = false := by simpa using nonempty
  have failed : c.store.writeOutput frame text = (some .closed, c.store) := by
    simp [Store.writeOutput, Store.console, Store.write, present, closed, filled]
  simp only [callNative, reply, failed]

/-- An evaluation that ends has taken lines off inputs and appended to outputs, and so has one that
is still under way. A buffer that is no output, as a buffer for diagnostics alone, stays as it was.
Where writes fail, every call that has something to write has an error for its value, and the
evaluation goes on. -/
theorem evaluateWithin_streams (form : Value) (frame : FrameId) (before : Store) :
    (∀ budget fuel value after,
      evaluateWithin budget fuel form frame before = some (value, after) →
        before.Streams after ∧
        (∀ (b : BufferId) (text : String), before.buffers[b]? = some text →
          ∃ more, after.buffers[b]? = some (text ++ more)) ∧
        ∀ b : BufferId, (∀ k, before.outputOf? k ≠ some (.buffer b)) →
          after.buffers[b]? = before.buffers[b]?) ∧
    ∀ room (state : State),
      State.Reaches ⟨.eval form frame, ⟨[], room, before⟩⟩ state →
        before.Streams state.context.store ∧
        ∀ operation args caller use, operation.WritesText args →
          state.CallsNative operation args caller use →
          before.outputOf? (state.context.store.consoleOf caller) = some .closed →
            state.step =
              .running ⟨.yield use (.error (.stream operation.name .closed)), state.context⟩ := by
  refine ⟨fun budget fuel value after ended => ?_, fun room state reached => ?_⟩
  · have streams := Store.streams_of_evaluateWithin ended
    exact ⟨streams, fun _ _ => streams.appended, fun _ => streams.unfed⟩
  · have streams := Store.streams_of_reaches reached
    refine ⟨streams, fun operation args caller use writes calls refused => ?_⟩
    rw [← streams.outputOf?_eq] at refused
    exact calls.trans (congrArg Progress.running (Context.callNative_refused writes refused))

/-- Two consoles with one buffer for their diagnostics. Writes to the second one's output fail, and
`shout` prints there. -/
private def streamsStore : Store :=
  ⟨#[⟨none, [("list", .procedure ⟨.native .list, false⟩), ("map", .procedure ⟨.native .map, false⟩),
      ("println", .procedure ⟨.native .printLine, false⟩),
      ("read-line", .procedure ⟨.native .readLine, false⟩),
      ("shout", .procedure ⟨.closure ⟨["x"], .list [.symbol "println", .symbol "x"], 1, none⟩,
        false⟩)], [], 0⟩,
    ⟨none, [("println", .procedure ⟨.native .printLine, false⟩)], [], 1⟩],
    #[⟨Text.items "ab\ncd", .buffer 0, .buffer 1⟩, ⟨[], .closed, .buffer 1⟩], #["> ", "trouble"]⟩

private def shoutingForm : Value :=
  .list [.symbol "list", .list [.symbol "shout", .list [.symbol "read-line"]],
    .list [.symbol "map", .symbol "println",
      .list [.symbol "quote", .list [.symbol "a", .symbol "b"]]]]

theorem evaluateWithin_streams_shouting :
    (∃ after, evaluateWithin 10 60 shoutingForm 0 streamsStore =
        some (.list [.error (.stream "println" .closed), .list [.nil, .nil]], after) ∧
      streamsStore.Streams after ∧ after.buffers = #["> a\nb\n", "trouble"]) ∧
    ∃ state : State, State.Reaches ⟨.eval shoutingForm 0, ⟨[], 9, streamsStore⟩⟩ state ∧
      state.step =
        .running ⟨.yield .answer (.error (.stream "println" .closed)), state.context⟩ := by
  obtain ⟨ends, runs⟩ := evaluateWithin_streams shoutingForm 0 streamsStore
  refine ⟨⟨_, rfl, (ends 10 60 _ _ rfl).1, rfl⟩, ?_⟩
  have reached : State.Reaches ⟨.eval shoutingForm 0, ⟨[], 9, streamsStore⟩⟩ _ := ⟨21, rfl⟩
  have writes : Native.printLine.WritesText [.string "ab"] := ⟨"ab\n", rfl, by decide⟩
  have calls := State.callsNative_operand .printLine false [] (.string "ab") 2
  exact ⟨_, reached, (runs 9 _ reached).2 .printLine _ 2 .answer writes (calls _) rfl⟩

end Lisp
