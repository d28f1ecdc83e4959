import Lisp.FileRunner
import Lisp.Proofs.Program

/-! How the command ends. Files are run up to the first one that cannot be read or does not parse, and
what became of them settles the exit code and whether a value is shown. -/

set_option autoImplicit false

namespace Lisp.FileRunner

/-! ## Options -/

def pathsOf (args : List String) : List String :=
  args.filter fun arg => !isFlag arg

def AskQuiet (args : List String) : Prop :=
  "-q" ∈ args ∨ "--quiet" ∈ args

structure ValidArgs (args : List String) : Prop where
  known : ∀ arg ∈ args, isFlag arg = true → arg = "-q" ∨ arg = "--quiet"
  paths : pathsOf args ≠ []

theorem isQuietFlag_iff {arg : String} : isQuietFlag arg = true ↔ arg = "-q" ∨ arg = "--quiet" := by
  simp [isQuietFlag]

theorem isFlag_of_isQuietFlag {arg : String} (quiet : isQuietFlag arg = true) :
    isFlag arg = true := by
  rcases isQuietFlag_iff.mp quiet with rfl | rfl <;> rfl

theorem readArgs_ok_iff {args : List String} {start options : Options} :
    readArgs args start = .ok options ↔
      (∀ arg ∈ args, isFlag arg = true → isQuietFlag arg = true) ∧
        start.paths ++ pathsOf args ≠ [] ∧
        options = ⟨start.quiet || args.any isQuietFlag, start.paths ++ pathsOf args⟩ := by
  induction args generalizing start with
  | nil =>
      obtain ⟨quiet, _ | ⟨path, paths⟩⟩ := start
      · simp [readArgs, pathsOf]
      · simp [readArgs, pathsOf, @eq_comm _ options]
  | cons arg rest ih =>
      rw [readArgs, List.forall_mem_cons, List.any_cons, pathsOf, List.filter_cons]
      cases quiet : isQuietFlag arg with
      | true => simp [ih, isFlag_of_isQuietFlag quiet, pathsOf]
      | false =>
          cases flag : isFlag arg with
          | true => simp
          | false => simp [ih, pathsOf]

theorem any_isQuietFlag_iff {args : List String} :
    args.any isQuietFlag = true ↔ AskQuiet args := by
  simp only [List.any_eq_true, isQuietFlag_iff, AskQuiet]
  grind

theorem ofArgs_ok_iff {args : List String} {options : Options} :
    Options.ofArgs args = .ok options ↔
      ValidArgs args ∧ options = ⟨args.any isQuietFlag, pathsOf args⟩ := by
  simp only [Options.ofArgs, readArgs_ok_iff, isQuietFlag_iff, List.nil_append, Bool.false_or]
  constructor
  · intro accepted
    exact ⟨⟨accepted.1, accepted.2.1⟩, accepted.2.2⟩
  · intro accepted
    exact ⟨accepted.1.known, accepted.1.paths, accepted.2⟩

/-! ## Files -/

/-- The program is run to its end. -/
def Runs (source : String) (frame : FrameId) (before : Store) (result : Except ParseError Value)
    (after : Store) : Prop :=
  ∃ fuel, runText fuel source frame before = some (result, after)

/-- The files are read and run one after the other, and their programs have the values. -/
inductive RunsAll (files : Files) (frame : FrameId) :
    List String → Store → List Value → Store → Prop where
  | nil (store : Store) : RunsAll files frame [] store [] store
  | cons {path source : String} {paths : List String} {value : Value} {values : List Value}
      {before middle after : Store} (readable : files path = .ok source)
      (runs : Runs source frame before (.ok value) middle)
      (rest : RunsAll files frame paths middle values after) :
      RunsAll files frame (path :: paths) before (value :: values) after

/-- How a run of files ends: with the value of the last one, or at the first file that cannot be read
or does not parse. Of the latter all expressions before the error are evaluated, and of the files after
it none. -/
inductive EndsWith (files : Files) (frame : FrameId) (paths : List String) (last : Value)
    (before : Store) : Ending → Store → Prop where
  | value {values : List Value} {after : Store}
      (runs : RunsAll files frame paths before values after) :
      EndsWith files frame paths last before (.value (values.getLastD last)) after
  | unreadable {front back : List String} {path : String} {values : List Value}
      {failure : ReadFailure} {after : Store} (split : paths = front ++ path :: back)
      (runs : RunsAll files frame front before values after)
      (fails : files path = .error failure) :
      EndsWith files frame paths last before (.unreadable path failure) after
  | unparsable {front back : List String} {path source : String} {values results : List Value}
      {cause : ParseError} {middle after : Store} (split : paths = front ++ path :: back)
      (runs : RunsAll files frame front before values middle) (readable : files path = .ok source)
      (fails : (Script.ofText source).failure = some cause)
      (evaluated : EvaluatesAll maxDepth frame (Script.ofText source).forms middle results after) :
      EndsWith files frame paths last before (.unparsable path source cause) after

section

variable {files : Files} {frame : FrameId} {paths : List String} {last : Value}
  {before middle after : Store} {ending : Ending}

theorem runs_error_iff {source : String} {cause : ParseError} :
    Runs source frame before (.error cause) after ↔
      (Script.ofText source).failure = some cause ∧
        ∃ results, EvaluatesAll maxDepth frame (Script.ofText source).forms before results after := by
  rw [Runs, runText_iff]
  simp only [Script.result]
  cases (Script.ofText source).failure with
  | none => simp
  | some other => simp [eq_comm, and_comm]

theorem runFiles_more {less more : Nat} (atMost : less ≤ more) {result : Ending × Store}
    (ended : runFiles less files frame paths last before = some result) :
    runFiles more files frame paths last before = some result := by
  induction paths generalizing last before with
  | nil => exact ended
  | cons path rest ih =>
      rw [runFiles] at ended ⊢
      cases read : files path with
      | error failure =>
          rw [read] at ended
          exact ended
      | ok source =>
          simp only [read] at ended ⊢
          cases ran : runText less source frame before with
          | none =>
              rw [ran] at ended
              cases ended
          | some outcome =>
              rw [runText_more atMost ran]
              rw [ran] at ended
              obtain ⟨cause | value, middle⟩ := outcome
              · exact ended
              · exact ih ended

theorem EndsWith.after_file {path source : String} {value : Value}
    (readable : files path = .ok source) (runs : Runs source frame before (.ok value) middle)
    (ends : EndsWith files frame paths value middle ending after) :
    EndsWith files frame (path :: paths) last before ending after := by
  cases ends with
  | value others =>
      rw [← List.getLastD_cons]
      exact .value (.cons readable runs others)
  | unreadable split others fails =>
      subst split
      exact .unreadable rfl (.cons readable runs others) fails
  | unparsable split others read fails evaluated =>
      subst split
      exact .unparsable rfl (.cons readable runs others) read fails evaluated

theorem endsWith_of_runFiles {fuel : Nat}
    (ended : runFiles fuel files frame paths last before = some (ending, after)) :
    EndsWith files frame paths last before ending after := by
  induction paths generalizing last before with
  | nil =>
      cases ended
      exact .value (.nil _)
  | cons path rest ih =>
      rw [runFiles] at ended
      cases read : files path with
      | error failure =>
          rw [read] at ended
          cases ended
          exact .unreadable (List.nil_append (path :: rest)).symm (.nil _) read
      | ok source =>
          simp only [read] at ended
          rcases ran : runText fuel source frame before with _ | ⟨cause | value, middle⟩
          · rw [ran] at ended
            cases ended
          · rw [ran] at ended
            cases ended
            obtain ⟨fails, results, evaluated⟩ := runs_error_iff.mp ⟨fuel, ran⟩
            exact .unparsable (List.nil_append (path :: rest)).symm (.nil _) read fails evaluated
          · rw [ran] at ended
            exact (ih ended).after_file read ⟨fuel, ran⟩

/-- The files in front have been run when those after them are. -/
theorem RunsAll.continued {front back : List String} {values : List Value}
    (runs : RunsAll files frame front before values middle) {result : Ending × Store}
    (later : ∃ fuel, runFiles fuel files frame back (values.getLastD last) middle = some result) :
    ∃ fuel, runFiles fuel files frame (front ++ back) last before = some result := by
  induction runs generalizing last with
  | nil store => exact later
  | @cons path source paths value values before between after readable runs rest ih =>
      rw [List.getLastD_cons] at later
      obtain ⟨fuel, others⟩ := ih later
      obtain ⟨fuel', ran⟩ := runs
      -- This file and those after it may need different fuel, and the larger one is enough for both.
      refine ⟨max fuel fuel', ?_⟩
      rw [List.cons_append, runFiles]
      simp only [readable, runText_more (Nat.le_max_right fuel fuel') ran]
      exact runFiles_more (Nat.le_max_left fuel fuel') others

theorem runFiles_iff :
    (∃ fuel, runFiles fuel files frame paths last before = some (ending, after)) ↔
      EndsWith files frame paths last before ending after := by
  constructor
  · intro ended
    obtain ⟨fuel, ended⟩ := ended
    exact endsWith_of_runFiles ended
  · intro ends
    cases ends with
    | value runs =>
        rw [← List.append_nil paths]
        exact runs.continued ⟨0, rfl⟩
    | unreadable split runs fails =>
        subst split
        exact runs.continued ⟨0, by simp only [runFiles, fails]⟩
    | unparsable split runs readable fails evaluated =>
        subst split
        obtain ⟨fuel, ran⟩ := runs_error_iff.mpr ⟨fails, _, evaluated⟩
        exact runs.continued ⟨fuel, by simp only [runFiles, readable, ran]⟩

end

/-! ## The conclusion -/

/-- How a value is shown: an error on the diagnostic stream, and any other value on the output stream,
or not at all if quiet is asked for. -/
inductive Shows (quiet : Prop) (frame : FrameId) (store : Store) :
    Value → Option StreamError × Store → Prop where
  | error (cause : EvalError) :
      Shows quiet frame store (.error cause)
        (store.writeDiagnostic frame ((Value.error cause).render ++ "\n"))
  | value {v : Value} (plain : v.isError = false) (loud : ¬ quiet) :
      Shows quiet frame store v (store.writeOutput frame (v.render ++ "\n"))
  | silent {v : Value} (plain : v.isError = false) (asked : quiet) :
      Shows quiet frame store v (none, store)

/-- The exit code, the notices and the store with which a run of files is concluded. -/
inductive Concluded (quiet : Prop) (frame : FrameId) :
    Ending → Store → Nat → List Notice → Store → Prop where
  | unreadable (path : String) (failure : ReadFailure) (store : Store) :
      Concluded quiet frame (.unreadable path failure) store 2
        [complaint ("cannot read " ++ path ++ ": " ++ failure.message)] store
  | unparsable (path source : String) (cause : ParseError) (store : Store) :
      Concluded quiet frame (.unparsable path source cause) store 1
        [.report (cause.report path source)] store
  | unshown {v : Value} {failure : StreamError} {store : Store}
      (shown : Shows quiet frame store v (some failure, store)) :
      Concluded quiet frame (.value v) store 2 [complaint failure.message] store
  | error {cause : EvalError} {store after : Store}
      (shown : Shows quiet frame store (.error cause) (none, after)) :
      Concluded quiet frame (.value (.error cause)) store 3 [] after
  | value {v : Value} {store after : Store} (plain : v.isError = false)
      (shown : Shows quiet frame store v (none, after)) :
      Concluded quiet frame (.value v) store 0 [] after

section

variable {quiet : Bool} {frame : FrameId} {store after : Store}

theorem shows_iff {v : Value} {outcome : Option StreamError × Store} :
    Shows (quiet = true) frame store v outcome ↔
      outcome = if quiet && !v.isError then (none, store) else printResult v frame store := by
  constructor
  · intro shows
    cases shows with
    | error cause => simp [Value.isError, printResult]
    | value plain loud => simp [plain, loud, printResult]
    | silent plain asked => simp [plain, asked]
  · intro same
    rw [same, printResult]
    cases plain : v.isError with
    | true =>
        obtain ⟨cause, rfl⟩ := Value.isError_iff.mp plain
        simp only [Bool.not_true, Bool.and_false, Bool.false_eq_true, if_false, if_true]
        exact .error cause
    | false =>
        cases asked : quiet with
        | true =>
            simp only [Bool.not_false, Bool.and_true, if_true]
            exact .silent plain True.intro
        | false =>
            simp only [Bool.false_and, Bool.false_eq_true, if_false]
            exact .value plain not_false

theorem eq_of_write_fails {sink : Sink} {text : String} {failure : StreamError}
    (fails : store.write sink text = (some failure, after)) : after = store := by
  cases sink with
  | buffer b => cases fails
  | closed => exact (Prod.mk.inj fails).2.symm

/-- A write that fails leaves nothing behind. -/
theorem Shows.eq_of_fails {asked : Prop} {v : Value} {failure : StreamError}
    (shown : Shows asked frame store v (some failure, after)) : after = store := by
  generalize same : (some failure, after) = outcome at shown
  cases shown with
  | error cause => exact eq_of_write_fails same.symm
  | value plain loud => exact eq_of_write_fails same.symm
  | silent plain asked => cases same

theorem conclude_shown {v : Value} (shown : Shows (quiet = true) frame store v (none, after)) :
    conclude quiet frame (.value v) store =
      (if v.isError then errorValueCode else successCode, [], after) := by
  have outcome := shows_iff.mp shown
  rw [conclude]
  split at outcome
  · next silent =>
      cases outcome
      rw [if_pos silent]
  · next loud => rw [if_neg loud, ← outcome]

theorem conclude_unshown {v : Value} {failure : StreamError}
    (shown : Shows (quiet = true) frame store v (some failure, after)) :
    conclude quiet frame (.value v) store =
      (streamFailureCode, [complaint failure.message], after) := by
  have outcome := shows_iff.mp shown
  rw [conclude]
  split at outcome
  · cases outcome
  · next loud => rw [if_neg loud, ← outcome]

theorem conclude_iff {ending : Ending} {code : Nat} {notices : List Notice} :
    conclude quiet frame ending store = (code, notices, after) ↔
      Concluded (quiet = true) frame ending store code notices after := by
  constructor
  · intro concluded
    cases ending with
    | unreadable path failure =>
        cases concluded
        exact .unreadable path failure _
    | unparsable path source cause =>
        cases concluded
        exact .unparsable path source cause _
    | value v =>
        obtain ⟨⟨failed, middle⟩, shown⟩ : ∃ outcome, Shows (quiet = true) frame store v outcome :=
          ⟨_, shows_iff.mpr rfl⟩
        cases failed with
        | some failure =>
            rw [conclude_unshown shown] at concluded
            cases concluded
            obtain rfl := shown.eq_of_fails
            exact .unshown shown
        | none =>
            rw [conclude_shown shown] at concluded
            cases plain : v.isError with
            | true =>
                obtain ⟨cause, rfl⟩ := Value.isError_iff.mp plain
                cases concluded
                exact .error shown
            | false =>
                rw [plain] at concluded
                cases concluded
                exact .value plain shown
  · intro concluded
    cases concluded with
    | unreadable | unparsable => rfl
    | unshown shown => exact conclude_unshown shown
    | error shown => exact conclude_shown shown
    | value plain shown =>
        rw [conclude_shown shown, plain]
        rfl

end

/-! ## The command -/

section

variable {files : Files} {args : List String} {frame : FrameId} {before after : Store} {code : Nat}
  {notices : List Notice}

/-- The command complains of its arguments. -/
def Complains (args : List String) (code : Nat) (notices : List Notice) : Prop :=
  ∃ fault, Options.ofArgs args = .error fault ∧ code = 2 ∧
    notices = [complaint (fault.message ++ "\n" ++ usage)]

theorem execute_invalid_iff (invalid : ¬ ValidArgs args) :
    (∃ fuel, execute fuel files args frame before = some (code, notices, after)) ↔
      Complains args code notices ∧ after = before := by
  cases read : Options.ofArgs args with
  | ok options => exact absurd (ofArgs_ok_iff.mp read).1 invalid
  | error fault =>
      simp only [execute, read, Complains]
      constructor
      · intro ended
        obtain ⟨fuel, ended⟩ := ended
        cases ended
        exact ⟨⟨fault, rfl, rfl, rfl⟩, rfl⟩
      · intro complains
        obtain ⟨⟨other, same, rfl, rfl⟩, rfl⟩ := complains
        cases same
        exact ⟨0, rfl⟩

theorem execute_valid_iff (valid : ValidArgs args) :
    (∃ fuel, execute fuel files args frame before = some (code, notices, after)) ↔
      ∃ ending middle, EndsWith files frame (pathsOf args) .nil before ending middle ∧
        Concluded (AskQuiet args) frame ending middle code notices after := by
  simp only [execute, ofArgs_ok_iff.mpr ⟨valid, rfl⟩, Option.map_eq_some_iff,
    ← any_isQuietFlag_iff, ← conclude_iff, ← runFiles_iff]
  constructor
  · intro ended
    obtain ⟨fuel, ⟨ending, middle⟩, ran, concluded⟩ := ended
    exact ⟨ending, middle, ⟨fuel, ran⟩, concluded⟩
  · intro ended
    obtain ⟨ending, middle, ⟨fuel, ran⟩, concluded⟩ := ended
    exact ⟨fuel, (ending, middle), ran, concluded⟩

theorem command_iff {input : List Text.Item} {result : CommandResult} :
    (∃ fuel, command fuel files args input = some result) ↔
      ∃ code notices after,
        (∃ fuel, execute fuel files args 0 (Store.initial input true) =
          some (code, notices, after)) ∧
        result = ⟨code, after.bufferText 0, .text (after.bufferText 1) :: notices⟩ := by
  simp only [command, Option.map_eq_some_iff]
  constructor
  · intro ended
    obtain ⟨fuel, ⟨code, notices, after⟩, ran, rfl⟩ := ended
    exact ⟨code, notices, after, ⟨fuel, ran⟩, rfl⟩
  · intro ended
    obtain ⟨code, notices, after, ⟨fuel, ran⟩, rfl⟩ := ended
    exact ⟨fuel, (code, notices, after), ran, rfl⟩

end

/-- The command runs the files whose paths are among its arguments, one after the other in one frame, up
to the first that cannot be read or does not parse. Its exit code tells what became of them and of the
value of the last one, and that value is all that the command itself shows. -/
theorem execute_concludes (files : Files) (args : List String) :
    (∀ frame before code notices after,
      (∃ fuel, execute fuel files args frame before = some (code, notices, after)) ↔
        (¬ ValidArgs args ∧ Complains args code notices ∧ after = before) ∨
        ValidArgs args ∧ ∃ ending middle,
          EndsWith files frame (pathsOf args) .nil before ending middle ∧
            Concluded (AskQuiet args) frame ending middle code notices after) ∧
    ∀ input result,
      (∃ fuel, command fuel files args input = some result) ↔
        ∃ code notices after,
          (∃ fuel, execute fuel files args 0 (Store.initial input true) =
            some (code, notices, after)) ∧
          result = ⟨code, after.bufferText 0, .text (after.bufferText 1) :: notices⟩ := by
  refine ⟨fun frame before code notices after => ?_, fun input result => command_iff⟩
  by_cases valid : ValidArgs args
  · simp only [execute_valid_iff valid, valid, not_true_eq_false, false_and, false_or, true_and]
  · simp only [execute_invalid_iff valid, valid, not_false_eq_true, false_and, or_false, true_and]

/-- The file `b` has a bracket too many, and the value of `e` is an error. -/
private def brokenFiles : Files
  | "a" => .ok "(define x #t)"
  | "b" => .ok "(define y x) ) (define z x)"
  | "e" => .ok "(x)"
  | _ => .error .missing

/-- Writes to the output fail. -/
private def runnerStore (bindings : Dict Value) (diagnostics : String) : Store :=
  ⟨#[⟨none, bindings, [], 0⟩], #[⟨[], .closed, .buffer 0⟩], #[diagnostics]⟩

private def brokenOff : ParseError :=
  .unexpectedToken ⟨.closing .round, ⟨13, 14⟩⟩ .expression

theorem execute_concludes_broken :
    (∃ fuel, execute fuel brokenFiles ["a", "--quiet", "b", "c"] 0 (runnerStore [] "") =
      some (1, [.report (brokenOff.report "b" "(define y x) ) (define z x)")],
        runnerStore [("x", .bool true), ("y", .bool true)] "")) ∧
    ∃ fuel, execute fuel brokenFiles ["a", "e", "-q"] 0 (runnerStore [] "") =
      some (3, [], runnerStore [("x", .bool true)] "Error: not a procedure: x (bool)\n") := by
  have first : RunsAll brokenFiles 0 ["a"] (runnerStore [] "") [.nil]
      (runnerStore [("x", .bool true)] "") := .cons rfl ⟨20, rfl⟩ (.nil _)
  constructor
  · have valid : ValidArgs ["a", "--quiet", "b", "c"] := ⟨by decide, by decide⟩
    have evaluated : EvaluatesAll maxDepth 0 (Script.ofText "(define y x) ) (define z x)").forms
        (runnerStore [("x", .bool true)] "") [.nil]
        (runnerStore [("x", .bool true), ("y", .bool true)] "") := .cons ⟨20, rfl⟩ (.nil _)
    have ends : EndsWith brokenFiles 0 (pathsOf ["a", "--quiet", "b", "c"]) .nil (runnerStore [] "")
        (.unparsable "b" "(define y x) ) (define z x)" brokenOff)
        (runnerStore [("x", .bool true), ("y", .bool true)] "") :=
      .unparsable (show _ = ["a"] ++ "b" :: ["c"] from rfl) first rfl rfl evaluated
    exact ((execute_concludes brokenFiles _).1 0 _ _ _ _).mpr
      (.inr ⟨valid, _, _, ends, .unparsable _ _ _ _⟩)
  · have valid : ValidArgs ["a", "e", "-q"] := ⟨by decide, by decide⟩
    have runs : RunsAll brokenFiles 0 (pathsOf ["a", "e", "-q"]) (runnerStore [] "")
        [.nil, .error (.notAProcedure "x (bool)")] (runnerStore [("x", .bool true)] "") :=
      .cons rfl ⟨20, rfl⟩ (.cons rfl ⟨20, rfl⟩ (.nil _))
    exact ((execute_concludes brokenFiles _).1 0 _ _ _ _).mpr
      (.inr ⟨valid, _, _, .value runs, .error (.error _)⟩)

end Lisp.FileRunner
