import Lisp.Proofs.Machine.Calls

/-! Calls on each item of a list. `map` calls its procedure on one item after the other, each where the
call before it has left the store, and the first error among the values ends it. -/

set_option autoImplicit false

namespace Lisp

/-- Calls on one item after the other, and their values. -/
inductive CallsEach (budget : Nat) (p : Procedure Value) (frame : FrameId) :
    List Value → Store → List Value → Store → Prop where
  | nil (store : Store) : CallsEach budget p frame [] store [] store
  | cons {item value : Value} {items values : List Value} {before middle after : Store}
      (first : Calls budget (.procedure p) [item] frame before value middle)
      (rest : CallsEach budget p frame items middle values after) :
      CallsEach budget p frame (item :: items) before (value :: values) after

/-- What calls on the items come to: the list of their values, or the first error among these, and
then the items after it have not been looked at. -/
inductive MapOutcome (budget : Nat) (p : Procedure Value) (frame : FrameId) (items : List Value)
    (before : Store) : Value → Store → Prop where
  | all {values : List Value} {after : Store}
      (calls : CallsEach budget p frame items before values after)
      (plain : ∀ value ∈ values, value.isError = false) :
      MapOutcome budget p frame items before (.list values) after
  | error {front back values : List Value} {item : Value} {cause : EvalError}
      {middle after : Store} (split : items = front ++ item :: back)
      (calls : CallsEach budget p frame front before values middle)
      (plain : ∀ value ∈ values, value.isError = false)
      (fails : Calls budget (.procedure p) [item] frame middle (.error cause) after) :
      MapOutcome budget p frame items before (.error cause) after

section

variable {budget : Nat} {p : Procedure Value} {frame : FrameId} {before middle after : Store}

/-- The machine comes to the items after those on which the calls have been made. -/
theorem CallsEach.reaches {front values : List Value}
    (calls : CallsEach budget p frame front before values middle)
    (plain : ∀ value ∈ values, value.isError = false) (done back : List Value) (use : Use)
    (stack : List Pending) :
    (Context.nextElement ⟨stack, budget, before⟩ p done (front ++ back) frame use).Reaches
      (Context.nextElement ⟨stack, budget, middle⟩ p (values.reverse ++ done) back frame use) := by
  -- The values that the machine has collected are in reverse, so each comes in front of `done`.
  induction calls generalizing done with
  | nil store => exact .refl _
  | @cons item value items values before between after first rest ih =>
      obtain ⟨plainValue, plainRest⟩ := List.forall_mem_cons.mp plain
      have called := first.yields (.element p done (items ++ back) frame use) stack
      have taken : State.Reaches
          ⟨.yield (.element p done (items ++ back) frame use) value, ⟨stack, budget, between⟩⟩
          (Context.nextElement ⟨stack, budget, between⟩ p (value :: done) (items ++ back) frame
            use) := by
        refine .ofStep ?_
        simp only [State.step, Context.yieldStep, plainValue, Bool.false_eq_true, if_false]
      have later := ih plainRest (value :: done)
      rw [List.reverse_cons, List.append_assoc, List.singleton_append]
      exact (State.Reaches.ofStep rfl).trans ((called.trans taken).trans later)

theorem MapOutcome.yields {items : List Value} {value : Value}
    (outcome : MapOutcome budget p frame items before value after) (use : Use)
    (stack : List Pending) :
    (Context.nextElement ⟨stack, budget, before⟩ p [] items frame use).Reaches
      ⟨.yield use value, ⟨stack, budget, after⟩⟩ := by
  cases outcome with
  | @all values after calls plain =>
      have reached := calls.reaches plain [] [] use stack
      simp only [List.append_nil, Context.nextElement, List.reverse_reverse] at reached
      exact reached
  | @error front back values item cause middle after split calls plain fails =>
      have reached := calls.reaches plain [] (item :: back) use stack
      rw [← split] at reached
      have called := fails.yields (.element p (values.reverse ++ []) back frame use) stack
      exact reached.trans (((State.Reaches.ofStep rfl).trans called).trans (.ofStep rfl))

theorem MapOutcome.after_call {item first value : Value} {items : List Value}
    (call : Calls budget (.procedure p) [item] frame before first middle)
    (plainFirst : first.isError = false)
    (outcome : MapOutcome budget p frame items middle value after) :
    ∃ whole, MapOutcome budget p frame (item :: items) before whole after := by
  cases outcome with
  | all calls plain =>
      exact ⟨_, .all (.cons call calls) (List.forall_mem_cons.mpr ⟨plainFirst, plain⟩)⟩
  | error split calls plain fails =>
      subst split
      exact ⟨_, .error rfl (.cons call calls) (List.forall_mem_cons.mpr ⟨plainFirst, plain⟩) fails⟩

theorem exists_mapOutcome {items done : List Value} {use : Use} {stack : List Pending}
    {outcome : Outcome}
    (halts : (Context.nextElement ⟨stack, budget, before⟩ p done items frame use).Halts outcome) :
    ∃ value after, MapOutcome budget p frame items before value after := by
  induction items generalizing done before with
  | nil => exact ⟨_, before, .all (.nil before) nofun⟩
  | cons item rest ih =>
      have called := (State.halts_step rfl).mp halts
      obtain ⟨value, middle, call, later⟩ := callProcedure_halts_iff.mp called
      have later := (State.halts_step rfl).mp later
      rw [Context.yieldStep] at later
      split at later
      · next failed =>
          obtain ⟨cause, rfl⟩ := Value.isError_iff.mp failed
          have none : ∀ value ∈ ([] : List Value), value.isError = false := nofun
          exact ⟨_, middle, .error (List.nil_append (item :: rest)).symm (.nil before) none call⟩
      · next plain =>
          obtain ⟨value', after, outcome⟩ := ih later
          obtain ⟨whole, outcome⟩ := outcome.after_call call (eq_false_of_ne_true plain)
          exact ⟨whole, after, outcome⟩

theorem nextElement_halts_iff {items : List Value} {value : Value} :
    (Context.nextElement ⟨[], budget, before⟩ p [] items frame .answer).Halts (value, after) ↔
      MapOutcome budget p frame items before value after := by
  constructor
  · intro halts
    obtain ⟨value', after', outcome⟩ := exists_mapOutcome halts
    have same := (outcome.yields .answer []).halts_iff.mp halts
    rw [← State.Halts, State.answer_halts_iff] at same
    cases same
    exact outcome
  · intro outcome
    exact (outcome.yields .answer []).halts_iff.mpr (State.answer_halts_iff.mpr rfl)

end

/-! ## Calls of `map` -/

theorem overItems_listed (p : Procedure Value) {items : List Value} {second : Value}
    (listed : second = .list items ∨ second = .nil ∧ items = []) :
    Native.overItems [.procedure p, second] = .each p items := by
  rcases listed with rfl | ⟨rfl, rfl⟩ <;> rfl

/-- `map` calls its procedure on one item after the other, up to the first whose value is an error and
no further, and has that error or the list of the values for its value. So it does nothing but these
calls, and all before one that does not end have been made when it begins. An error in place of the
list is the value, and then nothing is called. -/
theorem map_callsInOrder {p : Procedure Value} {items : List Value} {second : Value}
    (listed : second = .list items ∨ second = .nil ∧ items = []) (isMacro : Bool) (budget : Nat)
    (frame : FrameId) (before : Store) :
    (∀ value after,
      Calls budget (.procedure ⟨.native .map, isMacro⟩) [.procedure p, second] frame before value
          after ↔
        MapOutcome budget p frame items before value after) ∧
    (∀ front item back values middle, items = front ++ item :: back →
      CallsEach budget p frame front before values middle →
      (∀ value ∈ values, value.isError = false) → ∀ stack use,
        State.Reaches
          ⟨.call (.procedure ⟨.native .map, isMacro⟩) [.procedure p, second] frame use,
            ⟨stack, budget, before⟩⟩
          ⟨.call (.procedure p) [item] frame (.element p values.reverse back frame use),
            ⟨stack, budget, middle⟩⟩) ∧
    ∀ cause value after,
      Calls budget (.procedure ⟨.native .map, isMacro⟩) [.procedure p, .error cause] frame before
          value after ↔
        value = .error cause ∧ after = before := by
  have begins (stack : List Pending) (use : Use) :
      State.step ⟨.call (.procedure ⟨.native .map, isMacro⟩) [.procedure p, second] frame use,
          ⟨stack, budget, before⟩⟩ =
        .running (Context.nextElement ⟨stack, budget, before⟩ p [] items frame use) := by
    simp only [State.step, Context.call, Context.callProcedure, Context.callNative, Native.reply,
      overItems_listed p listed]
  refine ⟨fun value after => ?_, fun front item back values middle split calls plain stack use => ?_,
    fun cause value after => ?_⟩
  · exact (State.halts_step (begins [] .answer)).trans nextElement_halts_iff
  · have reached := calls.reaches plain [] (item :: back) use stack
    rw [← split, List.append_nil] at reached
    exact (State.Reaches.ofStep (begins stack use)).trans reached
  · rw [calls_iff]
    refine State.answer_halts_iff.trans ?_
    rw [Prod.mk.injEq, eq_comm, @eq_comm _ before]

/-- Notes its argument in the global frame, and gives the first item of it. -/
private def noting : Procedure Value where
  callable := .closure ⟨["x"], Keyword.begin.form [
    Keyword.assign.form [.symbol "seen", .symbol "x", .symbol "outer"],
    .list [.symbol "car", .symbol "x"]], 0, none⟩
  isMacro := false

private def notedItems : List Value :=
  [.list [.bool true], .symbol "a", .nil]

private def notingStore (seen : Value) (calls : List Frame) : Store :=
  ⟨(⟨none, [("car", .procedure ⟨.native .car, false⟩), ("seen", seen)], [], 0⟩ :: calls).toArray,
    #[], #[]⟩

private def notingFrame (x : Value) : Frame :=
  ⟨some 0, [("x", x)], [], 0⟩

/-- The second item is not a list, and the third is not noted. -/
theorem map_callsInOrder_noting :
    (Value.list notedItems = .list notedItems ∨ Value.list notedItems = .nil ∧ notedItems = []) ∧
      Calls 3 (.procedure ⟨.native .map, false⟩) [.procedure noting, .list notedItems] 0
        (notingStore .nil []) (.error (.typeMismatch "car" "list" "symbol"))
        (notingStore (.symbol "a") [notingFrame (.list [.bool true]), notingFrame (.symbol "a")]) ∧
      Calls 3 (.procedure ⟨.native .map, false⟩) [.procedure noting, .error .depthExceeded] 0
        (notingStore .nil []) (.error .depthExceeded) (notingStore .nil []) := by
  have listed : Value.list notedItems = .list notedItems ∨
      Value.list notedItems = .nil ∧ notedItems = [] := .inl rfl
  obtain ⟨outcomes, -, failed⟩ := map_callsInOrder (p := noting) listed false 3 0 (notingStore .nil [])
  have first : CallsEach 3 noting 0 [.list [.bool true]] (notingStore .nil []) [.bool true]
      (notingStore (.list [.bool true]) [notingFrame (.list [.bool true])]) :=
    .cons ⟨30, rfl⟩ (.nil _)
  exact ⟨listed, (outcomes _ _).mpr (.error rfl first (by simp [Value.isError]) ⟨30, rfl⟩),
    (failed _ _ _).mpr ⟨rfl, rfl⟩⟩

end Lisp
