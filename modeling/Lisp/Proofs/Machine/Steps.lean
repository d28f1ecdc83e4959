import Lisp.Eval

/-! Runs of the evaluation machine as repeated steps. A run with enough fuel halts exactly where
the steps lead to a finished evaluation with nothing on the stack. -/

set_option autoImplicit false

namespace Lisp.State

/-- The state after `count` steps; `none` when the machine halts before. -/
def after : (count : Nat) → State → Option State
  | 0, state => some state
  | count + 1, state =>
    match state.step with
    | .running next => after count next
    | .halted _ _ => none

/-- Some number of steps leads from one state to the other. -/
def Reaches (start finish : State) : Prop :=
  ∃ count, after count start = some finish

/-- The machine makes at least `count` steps without halting. -/
def RunsFor (count : Nat) (start : State) : Prop :=
  ∃ finish, after count start = some finish

/-- At some time the run asks for an evaluation for which there is no room. -/
def Refused (start : State) : Prop :=
  ∃ pending context, start.Reaches ⟨.refuse pending, context⟩

theorem after_succ {start next : State} (stepped : start.step = .running next) (count : Nat) :
    after (count + 1) start = after count next := by
  simp only [after, stepped]

/-- A run of at least one step begins with a step. -/
theorem after_succ_eq_some {count : Nat} {start finish : State} :
    after (count + 1) start = some finish ↔
      ∃ next, start.step = .running next ∧ after count next = some finish := by
  constructor
  · intro reached
    cases stepped : start.step with
    | running next => exact ⟨next, rfl, (after_succ stepped count).symm.trans reached⟩
    | halted value store => simp [after, stepped] at reached
  · rintro ⟨next, stepped, later⟩
    exact (after_succ stepped count).trans later

theorem after_add {first second : Nat} {start middle : State}
    (reached : after first start = some middle) :
    after (first + second) start = after second middle := by
  induction first generalizing start with
  | zero =>
      cases reached
      rw [Nat.zero_add]
  | succ first ih =>
      obtain ⟨next, stepped, later⟩ := after_succ_eq_some.mp reached
      rw [Nat.succ_add, after_succ stepped]
      exact ih later

/-! ## Reaching and running on -/

theorem Reaches.refl (state : State) : state.Reaches state :=
  ⟨0, rfl⟩

theorem Reaches.trans {start middle finish : State} (left : start.Reaches middle)
    (right : middle.Reaches finish) : start.Reaches finish := by
  obtain ⟨first, reached⟩ := left
  obtain ⟨second, finished⟩ := right
  exact ⟨first + second, (after_add reached).trans finished⟩

theorem Reaches.ofStep {start next : State} (stepped : start.step = .running next) :
    start.Reaches next :=
  ⟨1, after_succ stepped 0⟩

/-- Induction on a run, from its end to its start. -/
@[elab_as_elim]
theorem Reaches.head_induction {start finish : State}
    {motive : (s : State) → s.Reaches finish → Prop} (reached : start.Reaches finish)
    (refl : motive finish (.refl finish))
    (step : ∀ {s next : State} (stepped : s.step = .running next) (later : next.Reaches finish),
      motive next later → motive s ((Reaches.ofStep stepped).trans later)) :
    motive start reached := by
  obtain ⟨count, final⟩ := reached
  induction count generalizing start with
  | zero =>
      cases final
      exact refl
  | succ count ih =>
      obtain ⟨next, stepped, later⟩ := after_succ_eq_some.mp final
      exact step stepped ⟨count, later⟩ (ih later)

theorem RunsFor.zero (start : State) : start.RunsFor 0 :=
  ⟨start, rfl⟩

theorem RunsFor.succ {count : Nat} {start next : State} (stepped : start.step = .running next)
    (runs : next.RunsFor count) : start.RunsFor (count + 1) := by
  obtain ⟨finish, reached⟩ := runs
  exact ⟨finish, (after_succ stepped count).trans reached⟩

theorem RunsFor.pred {count : Nat} {start : State} (runs : start.RunsFor (count + 1)) :
    start.RunsFor count := by
  induction count generalizing start with
  | zero => exact .zero start
  | succ count ih =>
      obtain ⟨finish, reached⟩ := runs
      obtain ⟨next, stepped, later⟩ := after_succ_eq_some.mp reached
      exact .succ stepped (ih ⟨finish, later⟩)

theorem RunsFor.mono {less more : Nat} {start : State} (atMost : less ≤ more)
    (runs : start.RunsFor more) : start.RunsFor less := by
  induction atMost with
  | refl => exact runs
  | step _ ih => exact ih runs.pred

theorem Reaches.runsFor {count : Nat} {start middle : State} (reached : start.Reaches middle)
    (runs : middle.RunsFor count) : start.RunsFor count := by
  obtain ⟨first, reached⟩ := reached
  obtain ⟨finish, finished⟩ := runs
  have total : start.RunsFor (first + count) := ⟨finish, (after_add reached).trans finished⟩
  exact total.mono (Nat.le_add_left count first)

theorem Refused.ofReaches {start middle : State} (reached : start.Reaches middle)
    (refused : middle.Refused) : start.Refused := by
  obtain ⟨pending, context, later⟩ := refused
  exact ⟨pending, context, reached.trans later⟩

theorem Refused.here (pending : Pending) (context : Context) :
    Refused ⟨.refuse pending, context⟩ :=
  ⟨pending, context, .refl _⟩

/-- The machine halts within `fuel` steps and is never refused room. -/
def haltsUnrefused : (fuel : Nat) → State → Bool
  | 0, _ => false
  | fuel + 1, state =>
    match state.control with
    | .refuse _ => false
    | _ =>
      match state.step with
      | .running next => haltsUnrefused fuel next
      | .halted _ _ => true

theorem not_refused_of_haltsUnrefused {fuel : Nat} {start : State}
    (checked : haltsUnrefused fuel start = true) : ¬ start.Refused := by
  rintro ⟨pending, context, count, reached⟩
  induction fuel generalizing start count with
  | zero => cases checked
  | succ fuel ih =>
      cases count with
      | zero =>
          cases reached
          cases checked
      | succ count =>
          obtain ⟨next, stepped, later⟩ := after_succ_eq_some.mp reached
          simp only [haltsUnrefused, stepped] at checked
          split at checked
          · cases checked
          · exact ih checked count later

/-! ## Halting -/

theorem run_succ {start next : State} (stepped : start.step = .running next) (fuel : Nat) :
    run (fuel + 1) start = run fuel next := by
  simp only [run, stepped]

theorem run_add {count : Nat} {start middle : State} (reached : after count start = some middle)
    (fuel : Nat) : run (count + fuel) start = run fuel middle := by
  induction count generalizing start with
  | zero =>
      cases reached
      rw [Nat.zero_add]
  | succ count ih =>
      obtain ⟨next, stepped, later⟩ := after_succ_eq_some.mp reached
      rw [Nat.succ_add, run_succ stepped]
      exact ih later

theorem run_of_reaches {start : State} {value : Value} {room : Nat} {store : Store}
    (finished : start.Reaches ⟨.finish value, ⟨[], room, store⟩⟩) :
    ∃ fuel, run fuel start = some (value, store) := by
  obtain ⟨count, finished⟩ := finished
  exact ⟨count + 1, run_add finished 1⟩

/-- A machine that runs on does not halt in the same number of steps. -/
theorem run_of_runsFor {fuel : Nat} {start : State} (runs : start.RunsFor fuel) :
    run fuel start = none := by
  obtain ⟨finish, reached⟩ := runs
  exact run_add reached 0

/-- More fuel does not change the outcome of a run that halts. -/
theorem run_mono {less more : Nat} {start : State} {outcome : Outcome} (atMost : less ≤ more)
    (halted : run less start = some outcome) : run more start = some outcome := by
  induction less generalizing start more with
  | zero => cases halted
  | succ less ih =>
      cases more with
      | zero => exact absurd atMost (Nat.not_succ_le_zero less)
      | succ more =>
          cases stepped : start.step with
          | running next =>
              rw [run_succ stepped] at halted ⊢
              exact ih (Nat.le_of_succ_le_succ atMost) halted
          | halted value store =>
              simp only [run, stepped] at halted ⊢
              exact halted

theorem run_unique {first second : Nat} {start : State} {left right : Outcome}
    (one : run first start = some left) (other : run second start = some right) :
    left = right := by
  have same := (run_mono (Nat.le_max_left first second) one).symm.trans
    (run_mono (Nat.le_max_right first second) other)
  exact Option.some.inj same

/-- A machine has the outcomes of every state that it comes to. -/
theorem Reaches.halts_iff {start middle : State} (reached : start.Reaches middle)
    {outcome : Outcome} :
    (∃ fuel, run fuel start = some outcome) ↔ ∃ fuel, run fuel middle = some outcome := by
  obtain ⟨count, reached⟩ := reached
  constructor
  · rintro ⟨fuel, halted⟩
    have later := run_mono (Nat.le_add_left fuel count) halted
    rw [run_add reached] at later
    exact ⟨fuel, later⟩
  · rintro ⟨fuel, halted⟩
    exact ⟨count + fuel, (run_add reached fuel).trans halted⟩

end Lisp.State
