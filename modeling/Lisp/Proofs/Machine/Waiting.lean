import Lisp.Proofs.Machine.TailCalls

/-! A machine that waits for an evaluation halts just when that evaluation has a value and the work
that waits for it then leads to a halt. So a run that halts can be taken apart into the runs of its
parts. -/

set_option autoImplicit false

namespace Lisp

/-- The machine halts with the outcome. -/
def State.Halts (s : State) (outcome : Outcome) : Prop :=
  ∃ fuel, s.run fuel = some outcome

theorem State.halts_step {s next : State} (stepped : s.step = .running next) {outcome : Outcome} :
    s.Halts outcome ↔ next.Halts outcome :=
  (Reaches.ofStep stepped).halts_iff

theorem State.halts_finish {value : Value} {room : Nat} {store : Store} {outcome : Outcome} :
    State.Halts ⟨.finish value, ⟨[], room, store⟩⟩ outcome ↔ (value, store) = outcome := by
  constructor
  · rintro ⟨_ | fuel, halted⟩
    · cases halted
    · exact Option.some.inj halted
  · rintro rfl
    exact ⟨1, rfl⟩

theorem State.answer_halts_iff {value : Value} {room : Nat} {store : Store} {outcome : Outcome} :
    State.Halts ⟨.yield .answer value, ⟨[], room, store⟩⟩ outcome ↔ (value, store) = outcome :=
  (State.halts_step rfl).trans State.halts_finish

theorem State.halts_lift_iff {start : State} (unrefused : ¬ start.Refused) (extra : Nat)
    {outcome : Outcome} : (start.lift [] extra).Halts outcome ↔ start.Halts outcome := by
  simp only [Halts, run_lift_eq unrefused]

theorem evaluates_succ_iff {room : Nat} {form value : Value} {frame : FrameId}
    {before after : Store} :
    Evaluates (room + 1) form frame before value after ↔
      State.Halts ⟨.eval form frame, ⟨[], room, before⟩⟩ (value, after) :=
  Iff.rfl

theorem evaluates_form_iff {room : Nat} {keyword : Keyword} {operands : List Value}
    {frame : FrameId} {before after : Store} {value : Value} :
    Evaluates (room + 1) (keyword.form operands) frame before value after ↔
      (Context.special ⟨[], room, before⟩ keyword operands frame).Halts (value, after) :=
  State.halts_step (step_form keyword operands frame _)

/-- An evaluation that is refused no room has the same outcomes with any larger budget. -/
theorem Unrefused.evaluates_iff {budget larger : Nat} {form value : Value} {frame : FrameId}
    {before after : Store} (unrefused : Unrefused budget form frame before)
    (atMost : budget ≤ larger) :
    Evaluates larger form frame before value after ↔
      Evaluates budget form frame before value after := by
  obtain ⟨extra, rfl⟩ := Nat.exists_eq_add_of_le atMost
  obtain ⟨room, rfl, granted⟩ := unrefused
  rw [Nat.succ_add, evaluates_succ_iff, evaluates_succ_iff]
  exact State.halts_lift_iff granted extra

/-- A machine that follows a computation halts only when the computation has a result, and then goes
on to halt from the state that takes it up. -/
theorem Direct.Follows.result {α : Type} {budget : Nat} {start : State}
    {result : Nat → Option (α × Store)} {resume : α → Store → State}
    (follows : ∀ fuel, Follows (some budget) fuel start (result fuel) resume) {outcome : Outcome}
    (halts : start.Halts outcome) :
    ∃ fuel value middle, result fuel = some (value, middle) ∧
      (resume value middle).Halts outcome := by
  obtain ⟨fuel, halted⟩ := halts
  have followed := follows fuel
  cases ended : result fuel with
  | none =>
      rw [ended] at followed
      rw [State.run_of_runsFor (followed.runsFor nofun)] at halted
      cases halted
  | some pair =>
      obtain ⟨value, middle⟩ := pair
      rw [ended] at followed
      exact ⟨fuel, value, middle, ended, (followed.reaches nofun).halts_iff.mp ⟨fuel, halted⟩⟩

private theorem simulates (budget fuel : Nat) :
    Direct.Simulates (some budget) fuel budget (.under (Direct.run fuel) (some budget)) :=
  (Direct.simulated_run fuel).under (.inr rfl)

private theorem evaluates_of_nested {budget fuel : Nat} {form value : Value} {frame : FrameId}
    {before after : Store}
    (ended : (Direct.Recursion.under (Direct.run fuel) (some budget)).nested form frame before =
      some (value, after)) : Evaluates budget form frame before value after := by
  cases budget with
  | zero =>
      cases ended
      exact ⟨0, rfl⟩
  | succ room => exact (evaluateWithin_iff_run room form frame before _).mpr ⟨fuel, ended⟩

/-- An evaluation that begins another one for the sake of pending work. -/
theorem descend_halts_iff {budget : Nat} {stack : List Pending} {before : Store}
    {pending : Pending} {form : Value} {frame : FrameId} {outcome : Outcome} :
    (Context.descend ⟨stack, budget, before⟩ pending form frame).Halts outcome ↔
      ∃ value middle, Evaluates budget form frame before value middle ∧
        (Context.resumeStep ⟨stack, budget, middle⟩ pending value).Halts outcome := by
  constructor
  · intro halts
    obtain ⟨fuel, value, middle, ended, later⟩ := Direct.Follows.result
      (fun fuel => (simulates budget fuel).nested pending form frame stack before) halts
    exact ⟨value, middle, evaluates_of_nested ended, later⟩
  · rintro ⟨value, middle, evaluates, later⟩
    exact (evaluates.resumes pending stack).halts_iff.mpr later

theorem callProcedure_halts_iff {budget : Nat} {stack : List Pending} {before : Store}
    {p : Procedure Value} {args : List Value} {frame : FrameId} {use : Use} {outcome : Outcome} :
    (Context.callProcedure ⟨stack, budget, before⟩ p args frame use).Halts outcome ↔
      ∃ value middle, Calls budget (.procedure p) args frame before value middle ∧
        State.Halts ⟨.yield use value, ⟨stack, budget, middle⟩⟩ outcome := by
  constructor
  · intro halts
    obtain ⟨fuel, value, middle, ended, later⟩ := Direct.Follows.result
      (fun fuel => (simulates budget fuel).callProcedure p args frame use stack before) halts
    have called : Direct.run (fuel + 1) (some budget) (.call (.procedure p) args frame) before =
        some (value, middle) := ended
    exact ⟨value, middle, (callWithin_iff_run budget _ args frame before _).mpr ⟨_, called⟩, later⟩
  · rintro ⟨value, middle, calls, later⟩
    exact (calls.yields use stack).halts_iff.mpr later

/-! ## Several evaluations in a row -/

theorem applyNext_halts_iff {budget : Nat} {stack : List Pending} {before : Store}
    {p : Procedure Value} {operands : List Value} {frame : FrameId} {outcome : Outcome} :
    (Context.applyNext ⟨stack, budget, before⟩ p [] operands frame).Halts outcome ↔
      ∃ args middle, EvaluatesAll budget frame operands before args middle ∧
        (Context.apply ⟨stack, budget, middle⟩ p args frame).Halts outcome := by
  constructor
  · -- The run is taken apart operand by operand, with any arguments already there.
    have evaluated : ∀ (done : List Value) (before : Store),
        (Context.applyNext ⟨stack, budget, before⟩ p done operands frame).Halts outcome →
          ∃ args middle, EvaluatesAll budget frame operands before args middle := by
      induction operands with
      | nil => exact fun _ before _ => ⟨[], before, .nil before⟩
      | cons form rest ih =>
          intro done before halts
          obtain ⟨value, next, first, later⟩ := descend_halts_iff.mp halts
          obtain ⟨args, middle, others⟩ := ih (value :: done) next later
          exact ⟨value :: args, middle, .cons first others⟩
    intro halts
    obtain ⟨args, middle, all⟩ := evaluated [] before halts
    exact ⟨args, middle, all, (all.applies p [] stack).halts_iff.mp halts⟩
  · rintro ⟨args, middle, all, later⟩
    exact (all.applies p [] stack).halts_iff.mpr later

theorem bindNext_halts_iff {budget : Nat} {stack : List Pending} {before : Store}
    {bindings : List (String × Value)} {body : List Value} {frame : FrameId} {outcome : Outcome} :
    (Context.bindNext ⟨stack, budget, before⟩ [] (bindingForms bindings) body frame).Halts
        outcome ↔
      ∃ values middle, EvaluatesAll budget frame (bindings.map Prod.snd) before values middle ∧
        (Context.enter ⟨stack, budget, middle⟩ frame
          (Dict.ofList ((bindings.map Prod.fst).zip values))
          fun c inner => c.sequence body inner).Halts outcome := by
  constructor
  · have evaluated : ∀ (done : List (String × Value)) (before : Store),
        (Context.bindNext ⟨stack, budget, before⟩ done (bindingForms bindings) body frame).Halts
            outcome →
          ∃ values middle,
            EvaluatesAll budget frame (bindings.map Prod.snd) before values middle := by
      induction bindings with
      | nil => exact fun _ before _ => ⟨[], before, .nil before⟩
      | cons binding rest ih =>
          intro done before halts
          obtain ⟨value, next, first, later⟩ := descend_halts_iff.mp halts
          obtain ⟨values, middle, others⟩ := ih ((binding.1, value) :: done) next later
          exact ⟨value :: values, middle, .cons first others⟩
    intro halts
    obtain ⟨values, middle, all⟩ := evaluated [] before halts
    exact ⟨values, middle, all, (all.binds [] body stack).halts_iff.mp halts⟩
  · rintro ⟨values, middle, all, later⟩
    exact (all.binds [] body stack).halts_iff.mpr later

end Lisp
