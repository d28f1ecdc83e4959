import Lisp.Proofs.Direct.Simulation

/-! The machine and the direct evaluator have the same outcomes: under the limit that the machine
keeps, and without a limit wherever the machine is never refused room. -/

set_option autoImplicit false

namespace Lisp

open Direct

/-- The evaluation itself and all evaluations within its run find room. -/
def Unrefused (budget : Nat) (form : Value) (frame : FrameId) (store : Store) : Prop :=
  ∃ room, budget = room + 1 ∧ ¬ State.Refused ⟨.eval form frame, ⟨[], room, store⟩⟩

/-- A machine that follows a computation for every amount of fuel has its outcomes. -/
private theorem halts_iff_of_follows {limit : Limit} {room : Nat} {start : State}
    {result : Nat → Option Outcome}
    (follows : ∀ fuel, Follows limit fuel start (result fuel) (finishing [] room))
    (unrefused : limit = none → ¬ start.Refused) (outcome : Outcome) :
    (∃ fuel, start.run fuel = some outcome) ↔ ∃ fuel, result fuel = some outcome := by
  constructor
  · rintro ⟨fuel, halted⟩
    have followed := follows fuel
    cases ended : result fuel with
    | none =>
        rw [ended] at followed
        rw [State.run_of_runsFor (followed.runsFor unrefused)] at halted
        cases halted
    | some other =>
        rw [ended] at followed
        obtain ⟨enough, finished⟩ := State.run_of_reaches (followed.reaches unrefused)
        exact ⟨fuel, ended.trans (congrArg some (State.run_unique finished halted))⟩
  · rintro ⟨fuel, ended⟩
    have followed := follows fuel
    rw [ended] at followed
    exact State.run_of_reaches (followed.reaches unrefused)

/-- Under the limit that the machine keeps, direct evaluation has the machine's outcomes. -/
theorem evaluateWithin_iff_run (room : Nat) (form : Value) (frame : FrameId) (store : Store)
    (outcome : Outcome) :
    (∃ fuel, evaluateWithin (room + 1) fuel form frame store = some outcome) ↔
      ∃ fuel, run fuel (some room) (.eval form frame) store = some outcome :=
  halts_iff_of_follows
    (fun fuel => (simulated_run fuel (some room) room (.inr rfl)).1 form frame [] store)
    (by simp) outcome

/-- Under the limit that the machine keeps, direct calls have the machine's outcomes. -/
theorem callWithin_iff_run (room : Nat) (callee : Value) (args : List Value) (frame : FrameId)
    (store : Store) (outcome : Outcome) :
    (∃ fuel, callWithin room fuel callee args frame store = some outcome) ↔
      ∃ fuel, run fuel (some room) (.call callee args frame) store = some outcome :=
  halts_iff_of_follows
    (fun fuel => ((simulated_run fuel (some room) room (.inr rfl)).2 callee args frame .answer []
      store).thenReaches fun _ _ => .ofStep rfl)
    (by simp) outcome

/-- An evaluation that is never refused room has exactly the outcomes of plain recursion: the same
value, bindings, aliases, output and remaining input. -/
theorem evaluateWithin_iff_evaluate (budget : Nat) (form : Value) (frame : FrameId) (store : Store)
    (unrefused : Unrefused budget form frame store) (outcome : Outcome) :
    (∃ fuel, evaluateWithin budget fuel form frame store = some outcome) ↔
      ∃ fuel, Direct.evaluate fuel form frame store = some outcome := by
  obtain ⟨room, rfl, accepted⟩ := unrefused
  exact halts_iff_of_follows
    (fun fuel => (simulated_run fuel none room (.inl rfl)).1 form frame [] store)
    (fun _ => accepted) outcome

/-- A frame that binds `map`. -/
private def mapStore : Store :=
  ⟨#[⟨none, [("map", .procedure ⟨.native .map, false⟩)], [], 0⟩], #[], #[]⟩

/-- Maps a closure that fills a template over `(a b)`, from within another closure. -/
private def mapForm : Value :=
  .list [
    .list [.symbol "lambda", .list [.symbol "f"],
      .list [.symbol "map", .symbol "f",
        .list [.symbol "quote", .list [.symbol "a", .symbol "b"]]]],
    .list [.symbol "lambda", .list [.symbol "x"],
      .list [.symbol "quasiquote", .list [
        .list [.symbol "unquote", .symbol "x"],
        .list [.symbol "splice-unquote", .list [.symbol "quote", .list [.symbol "k"]]]]]]]

private theorem unrefused_mapForm : Unrefused 10 mapForm 0 mapStore := by
  have checked : State.haltsUnrefused 60 ⟨.eval mapForm 0, ⟨[], 9, mapStore⟩⟩ = true := by decide
  exact ⟨9, rfl, State.not_refused_of_haltsUnrefused checked⟩

theorem evaluateWithin_iff_evaluate_mapForm :
    Unrefused 10 mapForm 0 mapStore ∧
      ∃ store fuel, Direct.evaluate fuel mapForm 0 mapStore =
        some (.list [.list [.symbol "a", .symbol "k"], .list [.symbol "b", .symbol "k"]], store) :=
  ⟨unrefused_mapForm, _, (evaluateWithin_iff_evaluate 10 mapForm 0 mapStore unrefused_mapForm _).mp
    ⟨60, rfl⟩⟩

end Lisp
