import Lisp.Proofs.Machine.Moves
import Lisp.Proofs.Machine.Steps
import Mathlib.Logic.Relation

/-! A run never looks below the stack on which it began, and room that it does not lack makes no
difference to it. -/

set_option autoImplicit false

namespace Lisp.State

/-- The state with `base` below its stack and `extra` more room. -/
def lift (base : List Pending) (extra : Nat) (s : State) : State :=
  ⟨s.control, ⟨s.context.stack ++ base, s.context.room + extra, s.context.store⟩⟩

def IsRefusal (s : State) : Prop :=
  ∃ pending, s.control = .refuse pending

def Grants (s next : State) : Prop :=
  s.step = .running next ∧ ¬ next.IsRefusal

/-- A run in which no step refuses anything. -/
def GrantedRun : State → State → Prop :=
  Relation.ReflTransGen Grants

variable {s next start finish : State}

theorem refused_of_isRefusal (refusal : s.IsRefusal) : s.Refused := by
  obtain ⟨control, context⟩ := s
  obtain ⟨pending, rfl⟩ := refusal
  exact .here pending context

theorem Refused.ofStep (stepped : s.step = .running next) (refused : next.Refused) : s.Refused :=
  .ofReaches (.ofStep stepped) refused

theorem Grants.of_not_refused (stepped : s.step = .running next) (granted : ¬ s.Refused) :
    Grants s next :=
  ⟨stepped, fun refusal => granted (.ofStep stepped (refused_of_isRefusal refusal))⟩

theorem GrantedRun.reaches (run : GrantedRun start finish) : start.Reaches finish := by
  induction run with
  | refl => exact .refl start
  | tail _ last ih => exact ih.trans (.ofStep last.1)

/-! ## Steps -/

/-- A step that is granted what it asks for is the same step in the lifted state; without more room
even refusals are the same. -/
theorem step_lift (stepped : s.step = .running next) (base : List Pending) {extra : Nat}
    (granted : extra = 0 ∨ ¬ next.IsRefusal) :
    (s.lift base extra).step = .running (next.lift base extra) := by
  obtain ⟨control, stack, room, store⟩ := s
  obtain ⟨value, pending, rest, rfl, rfl, rfl⟩ | ⟨move, rfl, performs⟩ := step_cases stepped
  · simp [lift, step, Nat.add_right_comm]
  · rw [lift, performs]
    cases move with
    | go control store _ => rfl
    | begin pending form frame store =>
        cases room with
        | zero =>
            rcases granted with rfl | granted
            · rfl
            · exact absurd ⟨pending, rfl⟩ granted
        | succ room =>
            rw [Nat.succ_add]
            rfl

theorem Grants.lift (granted : Grants s next) (base : List Pending) (extra : Nat) :
    Grants (s.lift base extra) (next.lift base extra) :=
  ⟨step_lift granted.1 base (.inr granted.2), granted.2⟩

theorem step_of_lift {base : List Pending} {extra : Nat} {lifted : State}
    (stepped : (s.lift base extra).step = .running lifted) (unrefused : extra = 0 ∨ ¬ s.Refused) :
    (∃ next, s.step = .running next ∧ lifted = next.lift base extra) ∨
      ∃ value room store, s = ⟨.finish value, ⟨[], room, store⟩⟩ := by
  -- The state itself makes the same step, unless it has finished and the work below it goes on.
  cases own : s.step with
  | running next =>
      have granted : extra = 0 ∨ ¬ next.IsRefusal :=
        unrefused.imp_right fun notRefused => (Grants.of_not_refused own notRefused).2
      rw [step_lift own base granted] at stepped
      cases stepped
      exact .inl ⟨next, rfl, rfl⟩
  | halted value store =>
      obtain ⟨room, finished⟩ := finish_of_halted own
      exact .inr ⟨value, room, store, finished⟩

theorem step_of_widened {extra : Nat} {widened : State}
    (stepped : (s.lift [] extra).step = .running widened) (unrefused : ¬ s.Refused) :
    ∃ next, Grants s next ∧ widened = next.lift [] extra := by
  rcases step_of_lift stepped (.inr unrefused) with ⟨next, own, rfl⟩ | ⟨value, room, store, rfl⟩
  · exact ⟨next, .of_not_refused own unrefused, rfl⟩
  · cases stepped

/-! ## Runs -/

theorem Reaches.lift (reached : start.Reaches finish) (base : List Pending) :
    (start.lift base 0).Reaches (finish.lift base 0) := by
  induction reached using Reaches.head_induction with
  | refl => exact .refl _
  | step stepped _ ih => exact (Reaches.ofStep (step_lift stepped base (.inl rfl))).trans ih

theorem Refused.lift (refused : start.Refused) (base : List Pending) :
    (start.lift base 0).Refused := by
  obtain ⟨pending, context, reached⟩ := refused
  exact ⟨pending, _, reached.lift base⟩

theorem GrantedRun.lift (run : GrantedRun start finish) (base : List Pending) (extra : Nat) :
    GrantedRun (start.lift base extra) (finish.lift base extra) :=
  Relation.ReflTransGen.lift (State.lift base extra) (fun _ _ granted => granted.lift base extra) _ _
    run

theorem reaches_of_run {fuel : Nat} {value : Value} {store : Store}
    (halted : run fuel start = some (value, store)) :
    ∃ room, start.Reaches ⟨.finish value, ⟨[], room, store⟩⟩ := by
  induction fuel generalizing start with
  | zero => cases halted
  | succ fuel ih =>
      cases stepped : start.step with
      | running next =>
          rw [run_succ stepped] at halted
          obtain ⟨room, reached⟩ := ih halted
          exact ⟨room, (Reaches.ofStep stepped).trans reached⟩
      | halted result final =>
          simp only [run, stepped] at halted
          cases halted
          obtain ⟨room, rfl⟩ := finish_of_halted stepped
          exact ⟨room, .refl _⟩

theorem Refused.first (refused : start.Refused) (begins : ¬ start.IsRefusal) :
    ∃ last refusal, GrantedRun start last ∧ last.step = .running refusal ∧ refusal.IsRefusal := by
  obtain ⟨pending, context, reached⟩ := refused
  induction reached using Reaches.head_induction with
  | refl => exact absurd ⟨pending, rfl⟩ begins
  | @step s next stepped _ ih =>
      by_cases refusal : next.IsRefusal
      · exact ⟨s, next, .refl, stepped, refusal⟩
      · obtain ⟨last, refused, run, ended⟩ := ih refusal
        exact ⟨last, refused, .head ⟨stepped, refusal⟩ run, ended⟩

/-- Where no work is refused room, more room leads to the same states. -/
theorem GrantedRun.of_lift {extra : Nat} {widened : State} (unrefused : ¬ start.Refused)
    (run : GrantedRun (start.lift [] extra) widened) :
    ∃ finish, GrantedRun start finish ∧ ¬ finish.Refused ∧ widened = finish.lift [] extra := by
  induction run with
  | refl => exact ⟨start, .refl, unrefused, rfl⟩
  | tail _ stepped ih =>
      obtain ⟨own, ownRun, ownUnrefused, rfl⟩ := ih
      obtain ⟨next, granted, rfl⟩ := step_of_widened stepped.1 ownUnrefused
      exact ⟨next, .tail ownRun granted, fun refused => ownUnrefused (.ofStep granted.1 refused), rfl⟩

theorem not_refused_lift (unrefused : ¬ start.Refused) (extra : Nat) :
    ¬ (start.lift [] extra).Refused := by
  intro refused
  have begins : ¬ (start.lift [] extra).IsRefusal :=
    fun refusal => unrefused (refused_of_isRefusal refusal)
  obtain ⟨last, refusal, run, stepped, isRefusal⟩ := refused.first begins
  obtain ⟨own, -, ownUnrefused, rfl⟩ := GrantedRun.of_lift unrefused run
  obtain ⟨next, granted, rfl⟩ := step_of_widened stepped ownUnrefused
  exact granted.2 isRefusal

/-- A run that is never refused room is the same run with more room. -/
theorem run_lift_eq (unrefused : ¬ start.Refused) (extra fuel : Nat) :
    run fuel (start.lift [] extra) = run fuel start := by
  induction fuel generalizing start with
  | zero => rfl
  | succ fuel ih =>
      cases stepped : start.step with
      | running next =>
          have granted := Grants.of_not_refused stepped unrefused
          rw [run_succ (granted.lift [] extra).1, run_succ stepped]
          exact ih fun refused => unrefused (.ofStep stepped refused)
      | halted value store =>
          obtain ⟨room, rfl⟩ := finish_of_halted stepped
          rfl

theorem run_lift {fuel : Nat} {outcome : Outcome} (unrefused : ¬ start.Refused)
    (halted : run fuel start = some outcome) (extra : Nat) :
    run fuel (start.lift [] extra) = some outcome :=
  (run_lift_eq unrefused extra fuel).trans halted

end Lisp.State
