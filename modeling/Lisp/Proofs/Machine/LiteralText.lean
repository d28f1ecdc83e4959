import Lisp.Proofs.Machine.Equivalence
import Lisp.Proofs.Program

/-! A text is read to its end before any of it is evaluated, where a program is read expression by
expression. Both come to the same, unless the text has a parse error. -/

set_option autoImplicit false

namespace Lisp

/-! ## Sequences -/

section

variable {room : Nat} {pending : Pending} {form value : Value} {frame : FrameId}
  {before middle : Store}

theorem Unrefused.of_descend
    (unrefused : ¬ (Context.descend ⟨[], room, before⟩ pending form frame).Refused) :
    Unrefused room form frame before := by
  cases room with
  | zero => exact absurd (.here _ _) unrefused
  | succ room =>
      refine ⟨room, rfl, fun refused => ?_⟩
      exact unrefused (State.Refused.lift refused [pending])

theorem not_refused_resumeStep
    (unrefused : ¬ (Context.descend ⟨[], room, before⟩ pending form frame).Refused)
    (evaluated : Evaluates room form frame before value middle) :
    ¬ (Context.resumeStep ⟨[], room, middle⟩ pending value).Refused :=
  fun refused => unrefused (.ofReaches (evaluated.resumes pending []) refused)

end

/-- A sequence that is refused no room has the value of its last form. Each of the forms may then
have any larger budget. -/
theorem sequence_halts_iff {room larger : Nat} {frame : FrameId} {forms : List Value}
    {before after : Store} {value : Value} (atMost : room + 1 ≤ larger)
    (unrefused : ¬ (Context.sequence ⟨[], room, before⟩ forms frame).Refused) :
    (Context.sequence ⟨[], room, before⟩ forms frame).Halts (value, after) ↔
      ∃ values, EvaluatesAll larger frame forms before values after ∧
        value = values.getLastD .nil := by
  induction forms generalizing before with
  | nil =>
      rw [Context.sequence, Context.finish, State.halts_finish, Prod.mk.injEq]
      constructor
      · rintro ⟨rfl, rfl⟩
        exact ⟨[], .nil before, rfl⟩
      · rintro ⟨values, evaluated, rfl⟩
        cases evaluated
        exact ⟨rfl, rfl⟩
  | cons form rest ih =>
      cases rest with
      | nil =>
          -- The last form is evaluated in tail position, with one level more than the others.
          have granted : Unrefused (room + 1) form frame before := ⟨room, rfl, unrefused⟩
          rw [Context.sequence, Context.eval, ← evaluates_succ_iff, ← granted.evaluates_iff atMost]
          constructor
          · exact fun evaluated => ⟨[value], .cons evaluated (.nil after), rfl⟩
          · rintro ⟨values, evaluated, rfl⟩
            cases evaluated with
            | cons last none =>
                cases none
                exact last
      | cons second rest =>
          have begun : ¬ (Context.descend ⟨[], room, before⟩ (.sequence (second :: rest) frame) form
              frame).Refused := unrefused
          have granted := Unrefused.of_descend begun
          have wider : room ≤ larger := Nat.le_of_succ_le atMost
          refine descend_halts_iff.trans ⟨?_, ?_⟩
          · rintro ⟨first, middle, evaluated, halts⟩
            obtain ⟨values, others, rfl⟩ := (ih (not_refused_resumeStep begun evaluated)).mp halts
            refine ⟨first :: values, .cons ((granted.evaluates_iff wider).mpr evaluated) others, ?_⟩
            cases others
            rfl
          · rintro ⟨values, evaluated, rfl⟩
            cases evaluated with
            | @cons _ first _ values _ middle _ evaluated others =>
                have narrow := (granted.evaluates_iff wider).mp evaluated
                refine ⟨first, middle, narrow, (ih (not_refused_resumeStep begun narrow)).mpr
                  ⟨values, others, ?_⟩⟩
                cases others
                rfl

/-! ## Programs without parse errors -/

theorem readAll_eq_ok_iff {source : String} {forms : List Value} :
    readAll source = .ok forms ↔
      (Script.ofText source).failure = none ∧ (Script.ofText source).forms = forms := by
  rw [readAll]
  cases (Script.ofText source).failure <;> simp

theorem runText_complete_iff {source : String} {forms : List Value} {frame : FrameId}
    {before after : Store} {result : Except ParseError Value}
    (read : readAll source = .ok forms) :
    (∃ fuel, runText fuel source frame before = some (result, after)) ↔
      ∃ values, EvaluatesAll maxDepth frame forms before values after ∧
        result = .ok (values.getLastD .nil) := by
  obtain ⟨complete, rfl⟩ := readAll_eq_ok_iff.mp read
  simp only [runText_iff, Script.result, complete]

/-! ## Evaluation of text -/

theorem evalText_reaches {text : String} {forms : List Value} (read : readAll text = .ok forms)
    (stack : List Pending) (room : Nat) (before : Store) (frame : FrameId) :
    State.Reaches ⟨.eval (Keyword.evalText.form [.string text]) frame, ⟨stack, room, before⟩⟩
      (Context.sequence ⟨stack, room, (before.addChild frame []).2⟩ forms
        (before.addChild frame []).1) := by
  refine State.Reaches.trans (.ofStep (step_form .evalText [.string text] frame _)) ?_
  simp only [Context.special, Context.evalText, read, enter_eq rfl]
  rcases forms with _ | ⟨form, _ | ⟨second, rest⟩⟩
  · exact .refl _
  · exact .refl _
  · exact .ofStep (step_begin _ _ _)

/-- The evaluation of a text that has a parse error gives the error and does nothing else. That of
any other text has the outcomes of the program with this text, run in a new frame below the current
one; without expressions it has the value nil. -/
theorem evaluates_literalText (text : String) (frame : FrameId) (before : Store) :
    (∀ cause, readAll text = .error cause → ∀ room value after,
      Evaluates (room + 1) (Keyword.evalText.form [.string text]) frame before value after ↔
        value = .error (.parse cause) ∧ after = before) ∧
    ∀ forms, readAll text = .ok forms →
      (∀ budget ≤ maxDepth,
        Unrefused budget (Keyword.evalText.form [.string text]) frame before → ∀ result after,
          (∃ fuel, runText fuel text (before.addChild frame []).1 (before.addChild frame []).2 =
            some (result, after)) ↔
          ∃ value, result = .ok value ∧
            Evaluates budget (Keyword.evalText.form [.string text]) frame before value after) ∧
      (forms = [] → ∀ room,
        Evaluates (room + 1) (Keyword.evalText.form [.string text]) frame before .nil
          (before.addChild frame []).2) := by
  refine ⟨fun cause read room value after => ?_, fun forms read => ⟨?_, ?_⟩⟩
  · rw [evaluates_form_iff]
    simp only [Context.special, Context.evalText, read]
    rw [Context.fail, State.halts_finish, Prod.mk.injEq, eq_comm, @eq_comm _ after]
  · rintro _ atMost ⟨room, rfl, unrefused⟩ result after
    have reached := evalText_reaches read [] room before frame
    have means : ∀ value,
        Evaluates (room + 1) (Keyword.evalText.form [.string text]) frame before value after ↔
          ∃ values, EvaluatesAll maxDepth (before.addChild frame []).1 forms
            (before.addChild frame []).2 values after ∧ value = values.getLastD .nil := by
      intro value
      rw [evaluates_succ_iff, State.Halts, reached.halts_iff]
      exact sequence_halts_iff atMost fun refused => unrefused (.ofReaches reached refused)
    rw [runText_complete_iff read]
    simp only [means]
    constructor
    · rintro ⟨values, evaluated, rfl⟩
      exact ⟨_, rfl, values, evaluated, rfl⟩
    · rintro ⟨_, rfl, values, evaluated, rfl⟩
      exact ⟨values, evaluated, rfl⟩
  · rintro rfl room
    rw [evaluates_succ_iff, State.Halts, (evalText_reaches read [] room before frame).halts_iff]
    exact ⟨1, rfl⟩

private def rootStore : Store :=
  ⟨#[⟨none, [], [], 0⟩], #[], #[]⟩

/-- A definition that is well formed does not take place when what follows it is not. -/
theorem evaluates_literalText_defining :
    Evaluates 1 (Keyword.evalText.form [.string "(define x #t) (x"]) 0 rootStore
        (.error (.parse (.unexpectedEnd (.closer .round)))) rootStore ∧
      Unrefused 3 (Keyword.evalText.form [.string "(define x #t) x"]) 0 rootStore ∧
      ∃ fuel, runText fuel "(define x #t) x" 1 (rootStore.addChild 0 []).2 =
        some (.ok (.bool true), (rootStore.addChild 0 []).2.define 1 "x" (.bool true)) := by
  have unfinished : readAll "(define x #t) (x" =
      .error (.unexpectedEnd (.closer .round)) := rfl
  have finished : readAll "(define x #t) x" =
      .ok [Keyword.define.form [.symbol "x", .bool true], .symbol "x"] := rfl
  have granted : Unrefused 3 (Keyword.evalText.form [.string "(define x #t) x"]) 0 rootStore :=
    ⟨2, rfl, @State.not_refused_of_haltsUnrefused 30 _ (by decide)⟩
  have evaluated : Evaluates 3 (Keyword.evalText.form [.string "(define x #t) x"]) 0 rootStore
      (.bool true) ((rootStore.addChild 0 []).2.define 1 "x" (.bool true)) := ⟨30, rfl⟩
  have fails := evaluates_literalText "(define x #t) (x" 0 rootStore
  have agrees := evaluates_literalText "(define x #t) x" 0 rootStore
  exact ⟨(fails.1 _ unfinished 0 _ _).mpr ⟨rfl, rfl⟩, granted,
    ((agrees.2 _ finished).1 3 (by decide) granted _ _).mpr ⟨_, rfl, evaluated⟩⟩

end Lisp
