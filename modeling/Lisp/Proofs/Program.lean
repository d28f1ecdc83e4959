import Lisp.Program
import Lisp.Proofs.Machine.TailCalls
import Lisp.Proofs.Reader.Splitting

/-! Programs evaluate each of their expressions once, in order, up to the first parse error. So a
program may be split between two expressions, and the parts run one after the other. -/

set_option autoImplicit false

namespace Lisp

/-! ## Evaluations of all expressions -/

section

variable {budget : Nat} {frame : FrameId} {before middle after after' : Store}

theorem evaluateWithin_more {less more : Nat} {form : Value} {outcome : Outcome}
    (atMost : less ≤ more) (ended : evaluateWithin budget less form frame before = some outcome) :
    evaluateWithin budget more form frame before = some outcome := by
  cases budget with
  | zero => exact ended
  | succ room => exact State.run_mono atMost ended

theorem Evaluates.unique {form value value' : Value}
    (first : Evaluates budget form frame before value after)
    (second : Evaluates budget form frame before value' after') :
    value = value' ∧ after = after' := by
  obtain ⟨fuel, ended⟩ := first
  obtain ⟨fuel', ended'⟩ := second
  have more := evaluateWithin_more (Nat.le_max_left fuel fuel') ended
  have more' := evaluateWithin_more (Nat.le_max_right fuel fuel') ended'
  exact Prod.mk.inj (Option.some.inj (more.symm.trans more'))

namespace EvaluatesAll

theorem unique {forms values values' : List Value}
    (first : EvaluatesAll budget frame forms before values after)
    (second : EvaluatesAll budget frame forms before values' after') :
    values = values' ∧ after = after' := by
  induction first generalizing values' after' with
  | nil store =>
      cases second
      exact ⟨rfl, rfl⟩
  | cons evaluates _ ih =>
      cases second with
      | cons evaluates' rest' =>
          obtain ⟨rfl, rfl⟩ := evaluates.unique evaluates'
          obtain ⟨rfl, rfl⟩ := ih rest'
          exact ⟨rfl, rfl⟩

theorem append {front back values values' : List Value}
    (first : EvaluatesAll budget frame front before values middle)
    (second : EvaluatesAll budget frame back middle values' after) :
    EvaluatesAll budget frame (front ++ back) before (values ++ values') after := by
  induction first with
  | nil store => exact second
  | cons evaluates _ ih => exact .cons evaluates (ih second)

theorem split {front back results : List Value}
    (whole : EvaluatesAll budget frame (front ++ back) before results after) :
    ∃ values values' middle, results = values ++ values' ∧
      EvaluatesAll budget frame front before values middle ∧
      EvaluatesAll budget frame back middle values' after := by
  induction front generalizing before results with
  | nil => exact ⟨[], results, before, rfl, .nil before, whole⟩
  | cons form front ih =>
      cases whole with
      | @cons _ value _ values _ next _ evaluates rest =>
          obtain ⟨first, second, middle, rfl, begun, ended⟩ := ih rest
          exact ⟨value :: first, second, middle, rfl, .cons evaluates begun, ended⟩

end EvaluatesAll

end

/-! ## Runs -/

section

variable {frame : FrameId} {before middle after : Store}

theorem runForms_more {less more : Nat} {forms : List Value} {last : Value} {outcome : Outcome}
    (atMost : less ≤ more) (ended : runForms less frame forms last before = some outcome) :
    runForms more frame forms last before = some outcome := by
  induction forms generalizing last before with
  | nil => exact ended
  | cons form rest ih =>
      rw [runForms] at ended
      cases evaluated : evaluate less form frame before with
      | none =>
          rw [evaluated] at ended
          cases ended
      | some result =>
          rw [evaluated] at ended
          rw [runForms, evaluate, evaluateWithin_more atMost evaluated]
          exact ih ended

theorem runForms_iff {forms : List Value} {last value : Value} :
    (∃ fuel, runForms fuel frame forms last before = some (value, after)) ↔
      ∃ values, EvaluatesAll maxDepth frame forms before values after ∧
        value = values.getLastD last := by
  constructor
  · intro halts
    obtain ⟨fuel, ended⟩ := halts
    induction forms generalizing last before with
    | nil =>
        cases ended
        exact ⟨[], .nil _, rfl⟩
    | cons form rest ih =>
        rw [runForms] at ended
        rcases evaluated : evaluate fuel form frame before with _ | ⟨first, middle⟩
        · rw [evaluated] at ended
          cases ended
        · rw [evaluated] at ended
          obtain ⟨values, others, shown⟩ := ih ended
          refine ⟨first :: values, .cons ⟨fuel, evaluated⟩ others, ?_⟩
          rw [List.getLastD_cons, shown]
  · intro evaluates
    obtain ⟨values, evaluated, rfl⟩ := evaluates
    induction evaluated generalizing last with
    | nil store => exact ⟨0, rfl⟩
    | @cons form value forms values before middle after first rest ih =>
        obtain ⟨fuel, ended⟩ := first
        obtain ⟨fuel', later⟩ := @ih value
        refine ⟨max fuel fuel', ?_⟩
        have begun := evaluateWithin_more (Nat.le_max_left fuel fuel') ended
        rw [runForms, evaluate, begun, List.getLastD_cons]
        exact runForms_more (Nat.le_max_right fuel fuel') later

def Script.result (script : Script) (last : Value) : Except ParseError Value :=
  match script.failure with
  | some cause => .error cause
  | none => .ok last

theorem runText_eq (fuel : Nat) (source : String) :
    runText fuel source frame before =
      (runForms fuel frame (Script.ofText source).forms .nil before).map
        (Prod.map (Script.ofText source).result id) := by
  rw [runText]
  congr 1
  funext outcome
  simp only [Script.result, Prod.map]
  cases (Script.ofText source).failure <;> rfl

theorem runText_more {less more : Nat} {source : String} {outcome : ProgramOutcome}
    (atMost : less ≤ more) (ended : runText less source frame before = some outcome) :
    runText more source frame before = some outcome := by
  rw [runText_eq, Option.map_eq_some_iff] at ended ⊢
  obtain ⟨result, ran, shown⟩ := ended
  exact ⟨result, runForms_more atMost ran, shown⟩

/-- What a program gives when its tokens stand at other places. -/
theorem runText_mapSpan {source moved : String} {move : Span → Span}
    (merges : ∀ a b : Span, move (a.merge b) = (move a).merge (move b))
    (tokens : tokenize moved = (tokenize source).map (Token.mapSpan move)) (fuel : Nat) :
    runText fuel moved frame before =
      (runText fuel source frame before).map (Prod.map (Except.mapError (.mapSpan move)) id) := by
  rw [runText_eq, runText_eq, Script.ofText_mapSpan merges tokens, Option.map_map]
  congr 1
  funext outcome
  simp only [Script.result, Function.comp, Prod.map]
  cases (Script.ofText source).failure <;> rfl

/-- Reads one expression after the other and evaluates each before the next one is read. -/
def runTokens (fuel : Nat) (frame : FrameId) :
    (rounds : Nat) → List Token → (last : Value) → Store → Option ProgramOutcome
  | 0, _, last, store => some (.ok last, store)
  | rounds + 1, tokens, last, store =>
    match readOne tokens with
    | (.ok none, _) => some (.ok last, store)
    | (.error cause, _) => some (.error cause, store)
    | (.ok (some form), rest) =>
      match evaluate fuel form frame store with
      | none => none
      | some (value, store) => runTokens fuel frame rounds rest value store

/-- It makes no difference whether expressions are read before or after those in front of them are
evaluated. -/
theorem runText_eq_runTokens (fuel : Nat) (source : String) :
    runText fuel source frame before =
      runTokens fuel frame (tokenize source).length (tokenize source) .nil before := by
  have alternates : ∀ (rounds : Nat) (tokens : List Token) (last : Value) (store : Store),
      (runForms fuel frame (readForms rounds tokens).1 last store).map
        (Prod.map (Script.result ⟨(readForms rounds tokens).1, (readForms rounds tokens).2⟩) id) =
      runTokens fuel frame rounds tokens last store := by
    intro rounds
    induction rounds with
    | zero => exact fun _ _ _ => rfl
    | succ rounds ih =>
        intro tokens last store
        rw [readForms, runTokens]
        rcases readOne tokens with ⟨cause | (_ | form), rest⟩
        · rfl
        · rfl
        · dsimp only
          rw [runForms]
          rcases evaluate fuel form frame store with _ | ⟨value, next⟩
          · rfl
          · exact ih rest value next
  rw [runText_eq, ← alternates]
  rfl

/-- A program evaluates every expression before the first parse error once, in order, and nothing
else. -/
theorem runText_iff {source : String} {result : Except ParseError Value} :
    (∃ fuel, runText fuel source frame before = some (result, after)) ↔
      ∃ values, EvaluatesAll maxDepth frame (Script.ofText source).forms before values after ∧
        result = (Script.ofText source).result (values.getLastD .nil) := by
  simp only [runText_eq, Option.map_eq_some_iff]
  constructor
  · intro halts
    obtain ⟨fuel, ⟨value, store⟩, ran, shown⟩ := halts
    obtain ⟨rfl, rfl⟩ := Prod.mk.inj shown
    obtain ⟨values, evaluated, rfl⟩ := runForms_iff.mp ⟨fuel, ran⟩
    exact ⟨values, evaluated, rfl⟩
  · intro evaluates
    obtain ⟨values, evaluated, rfl⟩ := evaluates
    obtain ⟨fuel, ran⟩ := runForms_iff.mpr ⟨values, evaluated, rfl⟩
    exact ⟨fuel, _, ran, rfl⟩

/-! ## Programs in two parts -/

/-- What a program gives whose first part gave `value`, when the second part has the expressions
`forms`, stands at byte `place`, and gives `result` by itself. -/
def joined (place : Nat) (value : Value) (forms : List Value) :
    Except ParseError Value → Except ParseError Value
  | .error cause => .error (cause.mapSpan (.shift place))
  | .ok last => .ok (if forms.isEmpty then value else last)

theorem result_continued {first : String} (complete : (Script.ofText first).failure = none)
    (second : String) (values : List Value) {values' : List Value}
    (sameLength : values'.length = (Script.ofText second).forms.length) :
    (Script.ofText (first ++ "\n" ++ second)).result ((values ++ values').getLastD .nil) =
      joined (nextLine first) (values.getLastD .nil) (Script.ofText second).forms
        ((Script.ofText second).result (values'.getLastD .nil)) := by
  rw [Script.ofText_continued complete]
  generalize Script.ofText second = continuation at sameLength ⊢
  obtain ⟨forms, _ | cause⟩ := continuation
  · cases values' with
    | nil =>
        obtain rfl := List.length_eq_zero_iff.mp sameLength.symm
        simp [Script.result, joined]
    | cons value' others =>
        obtain ⟨form, rest, rfl⟩ := List.exists_cons_of_length_eq_add_one sameLength.symm
        simp [Script.result, joined, List.getLastD_eq_getLast?, List.getLast?_cons]
  · rfl

theorem runText_whole {first : String} {values : List Value}
    (complete : (Script.ofText first).failure = none)
    (begun : EvaluatesAll maxDepth frame (Script.ofText first).forms before values middle)
    (second : String) {result : Except ParseError Value} :
    (∃ fuel, runText fuel (first ++ "\n" ++ second) frame before = some (result, after)) ↔
      ∃ values', EvaluatesAll maxDepth frame (Script.ofText second).forms middle values' after ∧
        result = joined (nextLine first) (values.getLastD .nil) (Script.ofText second).forms
          ((Script.ofText second).result (values'.getLastD .nil)) := by
  rw [runText_iff]
  constructor
  · intro whole
    obtain ⟨results, evaluated, rfl⟩ := whole
    rw [Script.ofText_continued complete] at evaluated
    obtain ⟨front, values', between, rfl, evaluatedFront, back⟩ := evaluated.split
    -- Evaluation is deterministic, so the run of the whole comes to the store in the middle.
    obtain ⟨rfl, rfl⟩ := begun.unique evaluatedFront
    exact ⟨values', back, result_continued complete second values back.length_eq⟩
  · intro continued
    obtain ⟨values', evaluated, rfl⟩ := continued
    have result := result_continued complete second values evaluated.length_eq
    refine ⟨values ++ values', ?_, result.symm⟩
    rw [Script.ofText_continued complete]
    exact begun.append evaluated

/-- A program that is run to its end can be continued on a new line. The whole ends where the
continuation ends by itself, and gives what it gives: its error, further on in the text, or its
value, unless it has no expressions. Every expression of the one and then of the other that stands
before a parse error is evaluated once, in order, and nothing else is. -/
theorem runText_continued {first : String} {value : Value} (second : String)
    (ends : ∃ fuel, runText fuel first frame before = some (.ok value, middle)) :
    (∀ result after,
      (∃ fuel, runText fuel (first ++ "\n" ++ second) frame before = some (result, after)) ↔
        ∃ later, (∃ fuel, runText fuel second frame middle = some (later, after)) ∧
          result = joined (nextLine first) value (Script.ofText second).forms later) ∧
    ∀ result after,
      (∃ fuel, runText fuel (first ++ "\n" ++ second) frame before = some (result, after)) →
        ∃ values values',
          EvaluatesAll maxDepth frame (Script.ofText first).forms before values middle ∧
          EvaluatesAll maxDepth frame (Script.ofText second).forms middle values' after := by
  obtain ⟨values, begun, shown⟩ := runText_iff.mp ends
  obtain ⟨complete, rfl⟩ : (Script.ofText first).failure = none ∧ value = values.getLastD .nil := by
    rw [Script.result] at shown
    split at shown
    · cases shown
    · next complete => exact ⟨complete, Except.ok.inj shown⟩
  constructor
  · intro result after
    rw [runText_whole complete begun second]
    constructor
    · intro continued
      obtain ⟨values', evaluated, rfl⟩ := continued
      exact ⟨_, runText_iff.mpr ⟨values', evaluated, rfl⟩, rfl⟩
    · intro continued
      obtain ⟨later, ended, rfl⟩ := continued
      obtain ⟨values', evaluated, rfl⟩ := runText_iff.mp ended
      exact ⟨values', evaluated, rfl⟩
  · intro result after ended
    obtain ⟨values', evaluated, -⟩ := (runText_whole complete begun second).mp ended
    exact ⟨values, values', begun, evaluated⟩

end

private def globalStore : Store :=
  ⟨#[⟨none, [], [], 0⟩], #[], #[]⟩

private def definedStore : Store :=
  globalStore.define 0 "x" (.bool true)

/-- The first part ends in a comment, and the continuation closes a bracket that is not open after
it has used the definition. -/
theorem runText_continued_unexpected :
    (∃ fuel, runText fuel "(define x #t) x ; one" 0 globalStore =
      some (.ok (.bool true), definedStore)) ∧
    ∃ fuel, runText fuel ("(define x #t) x ; one" ++ "\n" ++ "x ) y") 0 globalStore =
      some (.error (.unexpectedToken ⟨.closing .round, ⟨24, 25⟩⟩ .expression), definedStore) := by
  have ends : ∃ fuel, runText fuel "(define x #t) x ; one" 0 globalStore =
      some (.ok (.bool true), definedStore) := ⟨20, rfl⟩
  have later : ∃ fuel, runText fuel "x ) y" 0 definedStore =
      some (.error (.unexpectedToken ⟨.closing .round, ⟨2, 3⟩⟩ .expression), definedStore) :=
    ⟨20, rfl⟩
  exact ⟨ends, ((runText_continued "x ) y" ends).1 _ _).mpr ⟨_, later, rfl⟩⟩

end Lisp
