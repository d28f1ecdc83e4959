import Lisp.Proofs.Direct.Refinement
import Lisp.Proofs.Machine.Lifting
import Mathlib

/-! How much room an evaluation takes up. Replacing the expression of an evaluation takes up none:
an evaluation needs room for itself and for what the evaluations need that it begins, and what fits
into some room has the same outcome in more. -/

set_option autoImplicit false

namespace Lisp

/-- An expression to evaluate, with the frame and the store to evaluate it in. -/
structure Evaluation where
  form : Value
  frame : FrameId
  store : Store

/-- The machine when it takes up the evaluation while `stack` waits. -/
def Evaluation.start (e : Evaluation) (stack : List Pending) (room : Nat) : State :=
  ⟨.eval e.form e.frame, ⟨stack, room, e.store⟩⟩

/-! ## The depth counter -/

namespace State

/-- The depth counter: how much of the limit is used up. -/
def depth (limit : Nat) (s : State) : Nat :=
  limit - s.context.room

/-- In an evaluation that `outer` others surround, the counter counts these, the evaluation itself
and the evaluations that wait on the stack. -/
structure Counted (outer limit : Nat) (s : State) : Prop where
  level : s.depth limit = outer + 1 + s.context.stack.length
  within : s.depth limit + s.context.room = limit

/-- What a step does to the stack and the counter: nothing, unless an evaluation begins, is refused
at the limit, or is left. -/
inductive Motion (limit : Nat) (s next : State) : Prop where
  | stays (stack : next.context.stack = s.context.stack) (counter : next.depth limit = s.depth limit)
  | begins (inner : Evaluation) (pending : Pending) (room : Nat)
      (entered : next = inner.start (pending :: s.context.stack) room)
      (counter : next.depth limit = s.depth limit + 1)
  | refuses (pending : Pending) (refused : next = ⟨.refuse pending, ⟨s.context.stack, 0,
      next.context.store⟩⟩) (atLimit : s.depth limit = limit) (counter : next.depth limit = limit)
  | leaves (value : Value) (pending : Pending) (finished : s.control = .finish value)
      (stack : s.context.stack = pending :: next.context.stack)
      (resumed : next.control = .resume pending value) (positive : 0 < s.depth limit)
      (counter : next.depth limit + 1 = s.depth limit)

variable {s next start finish : State} {outer limit : Nat}

theorem counted_iff :
    s.Counted outer limit ↔ outer + 1 + s.context.stack.length + s.context.room = limit := by
  constructor
  · rintro ⟨level, within⟩
    omega
  · intro total
    exact ⟨by simp only [depth]; omega, by simp only [depth]; omega⟩

theorem motion_of_step (counted : s.Counted outer limit) (stepped : s.step = .running next) :
    Motion limit s next := by
  obtain ⟨control, stack, room, store⟩ := s
  have total := counted_iff.mp counted
  dsimp only at total
  obtain ⟨value, pending, rest, rfl, rfl, rfl⟩ | ⟨move, rfl, -⟩ := step_cases stepped
  · exact .leaves value pending rfl rfl rfl (by simp only [depth]; omega)
      (by simp only [depth]; rw [List.length_cons] at total; omega)
  · cases move with
    | go control store _ => exact .stays rfl rfl
    | begin pending form frame store =>
        cases room with
        | zero => exact .refuses pending rfl rfl rfl
        | succ room =>
            refine .begins ⟨form, frame, store⟩ pending room rfl ?_
            simp only [Move.perform, Context.descend, depth]
            omega

theorem asked_of_refusal (stepped : s.step = .running next) (refused : next.IsRefusal) :
    s.context.room = 0 ∧ ∃ (inner : Evaluation) (pending : Pending),
      (s.lift [] 1).step = .running (inner.start (pending :: s.context.stack) 0) := by
  obtain ⟨control, stack, room, store⟩ := s
  obtain ⟨asked, refuses⟩ := refused
  obtain ⟨value, pending, rest, rfl, rfl, rfl⟩ | ⟨move, rfl, performs⟩ := step_cases stepped
  · cases refuses
  · cases move with
    | go control store granted => exact absurd refuses (granted asked)
    | begin pending form frame store =>
        cases room with
        | zero =>
            refine ⟨rfl, ⟨form, frame, store⟩, pending, ?_⟩
            simp only [State.lift, List.append_nil]
            exact performs stack 1
        | succ room => cases refuses

theorem Counted.ofStep (counted : s.Counted outer limit) (stepped : s.step = .running next) :
    next.Counted outer limit := by
  have motion := motion_of_step counted stepped
  rw [counted_iff] at counted ⊢
  cases motion with
  | stays stack counter =>
      simp only [depth] at counter
      rw [stack]
      omega
  | begins inner pending room entered counter =>
      subst entered
      simp only [depth, Evaluation.start, List.length_cons] at counter ⊢
      omega
  | refuses pending refused atLimit counter =>
      rw [refused]
      simp only [depth] at atLimit ⊢
      omega
  | leaves value pending finished stack resumed positive counter =>
      rw [stack, List.length_cons] at counted
      simp only [depth] at positive counter
      omega

theorem Counted.reaches (counted : start.Counted outer limit) (reached : start.Reaches finish) :
    finish.Counted outer limit := by
  induction reached using Reaches.head_induction with
  | refl => exact counted
  | step stepped _ ih => exact ih (counted.ofStep stepped)

end State

namespace Evaluation

open State

variable {e inner : Evaluation} {s : State}

theorem counted_start (e : Evaluation) (outer room : Nat) :
    (e.start [] room).Counted outer (outer + 1 + room) :=
  counted_iff.mpr rfl

theorem room_of_reaches {room : Nat} (reached : (e.start [] room).Reaches s)
    (outermost : s.context.stack = []) : s.context.room = room := by
  have total := counted_iff.mp ((e.counted_start 0 room).reaches reached)
  rw [outermost, List.length_nil] at total
  omega

/-! ## Sufficient budgets -/

/-- The budget suffices for the evaluation and for all evaluations within it. -/
def Fits (e : Evaluation) (budget : Nat) : Prop :=
  Unrefused budget e.form e.frame e.store

theorem not_fits_zero (e : Evaluation) : ¬ e.Fits 0 := by
  rintro ⟨room, none, -⟩
  cases none

theorem fits_succ {room : Nat} : e.Fits (room + 1) ↔ ¬ (e.start [] room).Refused := by
  constructor
  · rintro ⟨other, same, unrefused⟩
    cases same
    exact unrefused
  · exact fun unrefused => ⟨room, rfl, unrefused⟩

theorem Fits.mono {budget larger : Nat} (atMost : budget ≤ larger) (fits : e.Fits budget) :
    e.Fits larger := by
  obtain ⟨extra, rfl⟩ := Nat.exists_eq_add_of_le atMost
  obtain ⟨room, rfl, unrefused⟩ := fits
  rw [Nat.succ_add, Nat.succ_eq_add_one, fits_succ]
  exact not_refused_lift unrefused extra

/-! ## The evaluations that an evaluation begins -/

/-- The evaluation `e` begins `inner` itself, and not within another evaluation that it began. It
does so with some room, before it is refused any. -/
def Begins (e inner : Evaluation) : Prop :=
  ∃ room last pending left, (e.start [] room).GrantedRun last ∧ last.context.stack = [] ∧
    last.step = .running (inner.start [pending] left)

theorem Begins.reaches {room : Nat} (begins : e.Begins inner) (fits : e.Fits (room + 1)) :
    ∃ pending left, room = left + 1 ∧ (e.start [] room).Reaches (inner.start [pending] left) := by
  obtain ⟨other, last, pending, left, run, -, stepped⟩ := begins
  have whole : GrantedRun (e.start [] other) (inner.start [pending] left) :=
    .tail run ⟨stepped, nofun⟩
  -- Both amounts of room are widened to their sum, where the two runs are one.
  have wide : GrantedRun ((e.start [] room).lift [] other)
      ((inner.start [pending] left).lift [] room) := by
    have lifted := whole.lift [] room
    simpa only [State.lift, start, Nat.add_comm other room] using lifted
  obtain ⟨⟨control, stack, own, store⟩, ownRun, -, same⟩ :=
    GrantedRun.of_lift (fits_succ.mp fits) wide
  simp only [State.lift, start, List.append_nil, State.mk.injEq, Context.mk.injEq] at same
  obtain ⟨rfl, rfl, -, rfl⟩ := same
  have total := counted_iff.mp ((e.counted_start 0 room).reaches ownRun.reaches)
  simp only [List.length_singleton] at total
  exact ⟨pending, own, by omega, ownRun.reaches⟩

/-- Until it is refused room, an evaluation works on itself or on an evaluation that it began. -/
theorem outermost_or_begun {room : Nat} (run : (e.start [] room).GrantedRun s) :
    s.context.stack = [] ∨ ∃ inner pending left own, e.Begins inner ∧ room = left + 1 ∧
      (inner.start [] left).Reaches own ∧ s = own.lift [pending] 0 := by
  -- By induction on the run: only the stack of the outermost evaluation itself is ever empty.
  induction run with
  | refl => exact .inl rfl
  | @tail s next before granted ih =>
      have counted := (e.counted_start 0 room).reaches (GrantedRun.reaches before)
      rcases ih with outermost | ⟨inner, pending, left, own, begins, rfl, reached, rfl⟩
      · cases motion_of_step counted granted.1 with
        | stays stack _ => exact .inl (stack.trans outermost)
        | begins inner pending left entered _ =>
            rw [outermost] at entered
            subst entered
            have total := counted_iff.mp (counted.ofStep granted.1)
            simp only [start, List.length_singleton] at total
            exact .inr ⟨inner, pending, left, _,
              ⟨room, s, pending, left, before, outermost, granted.1⟩, by omega, .refl _, rfl⟩
        | refuses pending refused _ _ => exact absurd ⟨pending, by rw [refused]⟩ granted.2
        | leaves _ pending _ stack _ _ _ =>
            rw [outermost] at stack
            cases stack
      · rcases step_of_lift granted.1 (.inl rfl) with ⟨own', stepped, rfl⟩ |
            ⟨value, room, store, rfl⟩
        · exact .inr ⟨inner, pending, left, own', begins, rfl,
            reached.trans (.ofStep stepped), rfl⟩
        · cases granted.1
          exact .inl rfl

/-- An evaluation fits into a limit just when every evaluation that it begins fits into one less. -/
theorem fits_succ_iff {limit : Nat} :
    e.Fits (limit + 1) ↔ ∀ inner, e.Begins inner → inner.Fits limit := by
  constructor
  · intro fits inner begins
    obtain ⟨pending, left, rfl, reached⟩ := begins.reaches fits
    rw [fits_succ] at fits ⊢
    intro refused
    exact fits (.ofReaches reached (State.Refused.lift refused [pending]))
  · intro fitting
    rw [fits_succ]
    intro refused
    obtain ⟨last, refusal, run, stepped, isRefusal⟩ := refused.first nofun
    rcases outermost_or_begun run with outermost | ⟨inner, pending, left, own, begins, rfl, reached,
        rfl⟩
    · obtain ⟨noRoom, inner, pending, asked⟩ := asked_of_refusal stepped isRefusal
      obtain rfl : limit = 0 := (room_of_reaches run.reaches outermost).symm.trans noRoom
      rw [outermost] at asked
      have begins : e.Begins inner :=
        ⟨1, last.lift [] 1, pending, 0, run.lift [] 1, by simp [State.lift, outermost], asked⟩
      exact inner.not_fits_zero (fitting inner begins)
    · have nested := fits_succ.mp (fitting inner begins)
      rcases step_of_lift stepped (.inl rfl) with ⟨next, ownStep, rfl⟩ | ⟨value, room, store, rfl⟩
      · exact nested (.ofReaches reached (.ofStep ownStep (refused_of_isRefusal isRefusal)))
      · cases stepped
        obtain ⟨_, refuses⟩ := isRefusal
        cases refuses

/-! ## The least budget -/

/-- The least budget that suffices for an evaluation; infinite when none does. -/
noncomputable def requiredDepth (e : Evaluation) : ℕ∞ :=
  ⨅ (budget : Nat) (_ : e.Fits budget), (budget : ℕ∞)

theorem requiredDepth_le_iff {limit : Nat} : e.requiredDepth ≤ limit ↔ e.Fits limit := by
  constructor
  · intro atMost
    by_contra tooSmall
    have larger : ((limit + 1 : Nat) : ℕ∞) ≤ e.requiredDepth := by
      refine le_iInf₂ fun budget fits => Nat.cast_le.mpr ?_
      by_contra smaller
      exact tooSmall (fits.mono (by omega))
    have impossible := Nat.cast_le.mp (larger.trans atMost)
    omega
  · intro fits
    exact iInf₂_le limit fits

theorem requiredDepth_eq (e : Evaluation) :
    e.requiredDepth = 1 + ⨆ (inner : Evaluation) (_ : e.Begins inner), inner.requiredDepth := by
  refine eq_of_forall_ge_iff fun limit => ?_
  cases limit with
  | top => simp
  | coe limit =>
      rw [requiredDepth_le_iff]
      cases limit with
      | zero => simp [not_fits_zero]
      | succ limit =>
          rw [fits_succ_iff, Nat.cast_succ, add_comm, ENat.add_le_add_iff_right ENat.one_ne_top,
            iSup₂_le_iff]
          simp only [requiredDepth_le_iff]

end Evaluation

/-- An evaluation that is never refused room has the same outcome with any larger budget. -/
theorem evaluateWithin_mono {budget larger fuel : Nat} {form : Value} {frame : FrameId}
    {store : Store} {outcome : Outcome} (atMost : budget ≤ larger)
    (unrefused : Unrefused budget form frame store)
    (ended : evaluateWithin budget fuel form frame store = some outcome) :
    evaluateWithin larger fuel form frame store = some outcome := by
  obtain ⟨extra, rfl⟩ := Nat.exists_eq_add_of_le atMost
  obtain ⟨room, rfl, granted⟩ := unrefused
  rw [Nat.succ_add]
  exact State.run_lift granted ended extra

private def listStore : Store :=
  ⟨#[⟨none, [("list", .procedure ⟨.native .list, false⟩)], [], 0⟩], #[], #[]⟩

private def doubledForm : Value :=
  .list [
    .list [.symbol "lambda", .list [.symbol "x"], .list [.symbol "list", .symbol "x", .symbol "x"]],
    .list [.symbol "list", .bool true, .nil]]

private theorem unrefused_doubledForm : Unrefused 3 doubledForm 0 listStore := by
  -- The values in the list are evaluated within the list, and the list within the application.
  have checked : State.haltsUnrefused 60 ⟨.eval doubledForm 0, ⟨[], 2, listStore⟩⟩ = true := by
    decide
  exact ⟨2, rfl, State.not_refused_of_haltsUnrefused checked⟩

theorem evaluateWithin_mono_doubledForm :
    3 ≤ maxDepth ∧ Unrefused 3 doubledForm 0 listStore ∧
      ∃ store, evaluateWithin 3 60 doubledForm 0 listStore =
          some (.list [.list [.bool true, .nil], .list [.bool true, .nil]], store) ∧
        evaluateWithin maxDepth 60 doubledForm 0 listStore =
          some (.list [.list [.bool true, .nil], .list [.bool true, .nil]], store) := by
  have atMost : 3 ≤ maxDepth := by decide
  exact ⟨atMost, unrefused_doubledForm, _, rfl,
    evaluateWithin_mono atMost unrefused_doubledForm rfl⟩

end Lisp
