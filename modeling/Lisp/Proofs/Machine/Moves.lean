import Lisp.Eval

/-! What a rule of the machine does is settled by the store. The stack and the room matter only
where a rule begins another evaluation, and then only for whether there is room. -/

set_option autoImplicit false

namespace Lisp

/-- What a rule does next: it goes on within the current evaluation, and then it refuses nothing,
or it begins another evaluation for the sake of pending work. -/
inductive Move where
  | go (control : Control) (store : Store) (granted : ∀ pending, control ≠ .refuse pending)
  | begin (pending : Pending) (form : Value) (frame : FrameId) (store : Store)

namespace Move

def finish (value : Value) (store : Store) : Move :=
  .go (.finish value) store nofun

def yield (use : Use) (value : Value) (store : Store) : Move :=
  .go (.yield use value) store nofun

def perform (stack : List Pending) (room : Nat) : Move → State
  | go control store _ => ⟨control, ⟨stack, room, store⟩⟩
  | begin pending form frame store => Context.descend ⟨stack, room, store⟩ pending form frame

end Move

/-- The rule makes the same move whatever waits on the stack and however much room there is. -/
def Uniform (rule : Context → State) : Prop :=
  ∀ store, ∃ move : Move, ∀ stack room, rule ⟨stack, room, store⟩ = move.perform stack room

namespace Uniform

/-! ## Single moves -/

theorem finish (value : Value) : Uniform fun c => c.finish value :=
  fun store => ⟨.finish value store, fun _ _ => rfl⟩

theorem fail (cause : EvalError) : Uniform fun c => c.fail cause :=
  finish (.error cause)

theorem eval (form : Value) (frame : FrameId) : Uniform fun c => c.eval form frame :=
  fun store => ⟨.go (.eval form frame) store nofun, fun _ _ => rfl⟩

theorem yield (use : Use) (value : Value) : Uniform fun c => ⟨.yield use value, c⟩ :=
  fun store => ⟨.yield use value store, fun _ _ => rfl⟩

theorem callNext (callee : Value) (args : List Value) (frame : FrameId) (use : Use) :
    Uniform fun c => ⟨.call callee args frame use, c⟩ :=
  fun store => ⟨.go (.call callee args frame use) store nofun, fun _ _ => rfl⟩

theorem descend (pending : Pending) (form : Value) (frame : FrameId) :
    Uniform fun c => c.descend pending form frame :=
  fun store => ⟨.begin pending form frame store, fun _ _ => rfl⟩

theorem withStore (change : Store → Store) (value : Value) :
    Uniform fun c => (c.withStore change).finish value :=
  fun store => ⟨.finish value (change store), fun _ _ => rfl⟩

theorem enter {next : Context → FrameId → State} (outer : FrameId) (bindings : Dict Value)
    (uniform : ∀ inner, Uniform fun c => next c inner) :
    Uniform fun c => c.enter outer bindings next := by
  intro store
  obtain ⟨move, performed⟩ := uniform (store.addChild outer bindings).1
    (store.addChild outer bindings).2
  exact ⟨move, performed⟩

/-! ## Sequences, bindings and templates -/

theorem sequence (forms : List Value) (frame : FrameId) :
    Uniform fun c => c.sequence forms frame := by
  rcases forms with _ | ⟨form, _ | ⟨second, rest⟩⟩
  · exact finish .nil
  · exact eval form frame
  · exact descend (.sequence (second :: rest) frame) form frame

theorem bindNext (done : List (String × Value)) (rest body : List Value) (frame : FrameId) :
    Uniform fun c => c.bindNext done rest body frame := by
  simp only [Context.bindNext.eq_def]
  split
  · exact enter frame _ fun inner => sequence body inner
  · split
    · exact fail _
    · exact descend _ _ frame
  · exact fail _

theorem fillNext (template : Value) (done : List Value) (rest : List Hole) (frame : FrameId) :
    Uniform fun c => c.fillNext template done rest frame := by
  cases rest with
  | nil => exact finish _
  | cons hole rest => exact descend _ hole.operand frame

theorem evalText (text : String) (frame : FrameId) :
    Uniform fun c => c.evalText text frame := by
  simp only [Context.evalText]
  split
  · exact fail _
  · refine enter frame [] fun inner => ?_
    split
    · exact finish .nil
    · exact eval _ inner
    · exact eval _ inner

theorem readText (text : String) : Uniform fun c => c.readText text := by
  simp only [Context.readText]
  split
  · exact fail _
  · exact finish _
  · exact finish .nil

/-! ## Calls -/

theorem nextElement (callee : Procedure Value) (done rest : List Value) (frame : FrameId)
    (use : Use) : Uniform fun c => c.nextElement callee done rest frame use := by
  cases rest with
  | nil => exact yield use _
  | cons item rest => exact callNext _ [item] frame _

theorem callNative (operation : Native) (args : List Value) (frame : FrameId) (use : Use) :
    Uniform fun c => c.callNative operation args frame use := by
  simp only [Context.callNative]
  cases operation.reply args with
  | value v => exact yield use v
  | write text =>
      intro store
      rcases written : store.writeOutput frame text with ⟨_ | failure, after⟩
      · exact ⟨.yield use .nil after, fun _ _ => by simp only [written]; rfl⟩
      · exact ⟨.yield use (.error (.stream operation.name failure)) after,
          fun _ _ => by simp only [written]; rfl⟩
  | readLine =>
      intro store
      rcases taken : store.readLine frame with ⟨failure | _ | line, after⟩
      · exact ⟨.yield use (.error (.stream operation.name failure)) after,
          fun _ _ => by simp only [taken]; rfl⟩
      · exact ⟨.yield use .nil after, fun _ _ => by simp only [taken]; rfl⟩
      · exact ⟨.yield use (.string line) after, fun _ _ => by simp only [taken]; rfl⟩
  | call callee args => exact callNext callee args frame use
  | each callee items => exact nextElement callee [] items frame use

theorem callProcedure (p : Procedure Value) (args : List Value) (frame : FrameId) (use : Use) :
    Uniform fun c => c.callProcedure p args frame use := by
  simp only [Context.callProcedure]
  split
  · exact callNative _ args frame use
  · split
    · exact yield use _
    · exact enter _ _ fun inner => descend _ _ inner

theorem call (callee : Value) (args : List Value) (frame : FrameId) (use : Use) :
    Uniform fun c => c.call callee args frame use := by
  cases callee with
  | procedure p => exact callProcedure p args frame use
  | _ => exact yield use _

theorem apply (p : Procedure Value) (args : List Value) (frame : FrameId) :
    Uniform fun c => c.apply p args frame := by
  simp only [Context.apply]
  split
  · exact callNative _ args frame .answer
  · split
    · exact fail _
    · exact enter _ _ fun inner => eval _ inner

theorem applyNext (p : Procedure Value) (done rest : List Value) (frame : FrameId) :
    Uniform fun c => c.applyNext p done rest frame := by
  cases rest with
  | nil => exact apply p done.reverse frame
  | cons form rest => exact descend _ form frame

/-! ## Special forms -/

theorem evalFor (keyword : Keyword) (target form : Value) (frame : FrameId)
    (pending : String → Pending) :
    Uniform fun c => c.evalFor keyword target form frame pending := by
  simp only [Context.evalFor]
  split
  · exact fail _
  · exact descend _ form frame

theorem makeClosure (parameters : Value) (doc : Option String) (body : Value) (frame : FrameId) :
    Uniform fun c => c.makeClosure parameters doc body frame := by
  simp only [Context.makeClosure]
  split
  · exact fail _
  · exact finish _

theorem expandMacro (form : Value) (frame : FrameId) :
    Uniform fun c => c.special .expandMacro [form] frame := by
  intro store
  cases found : Context.macroCall? store frame form with
  | none =>
      exact ⟨.finish form store,
        fun _ _ => by simp only [Context.special, found]; rfl⟩
  | some called =>
      obtain ⟨move, performed⟩ := callProcedure called.1 called.2 frame .answer store
      refine ⟨move, fun stack room => ?_⟩
      simp only [Context.special, found]
      exact performed stack room

theorem bindAliases (args : List Value) (frame : FrameId) :
    Uniform fun c => c.special .synonym args frame := by
  simp only [Context.special]
  split
  · exact fail _
  · intro store
    rcases bound : Context.bindAliases store frame args with ⟨_ | cause, after⟩
    · exact ⟨.finish .nil after, fun _ _ => by simp only [bound]; rfl⟩
    · exact ⟨.finish (.error cause) after, fun _ _ => by simp only [bound]; rfl⟩

theorem special (keyword : Keyword) (args : List Value) (frame : FrameId) :
    Uniform fun c => c.special keyword args frame := by
  cases keyword with
  | quote =>
      rcases args with _ | ⟨form, _ | ⟨second, rest⟩⟩ <;> exact finish _
  | quasiquote =>
      rcases args with _ | ⟨form, _ | ⟨second, rest⟩⟩
      · exact fail _
      · exact fillNext form [] _ frame
      · exact fail _
  | conditional =>
      rcases args with _ | ⟨test, _ | ⟨consequent, _ | ⟨alternative, _ | ⟨fourth, rest⟩⟩⟩⟩
      · exact fail _
      · exact fail _
      · exact descend _ test frame
      · exact descend _ test frame
      · exact fail _
  | define =>
      rcases args with _ | ⟨target, _ | ⟨form, rest⟩⟩
      · exact fail _
      · exact fail _
      · exact evalFor .define target form frame _
  | assign =>
      rcases args with _ | ⟨target, _ | ⟨form, _ | ⟨outer, rest⟩⟩⟩
      · exact fail _
      · exact fail _
      · exact evalFor .assign target form frame _
      · exact evalFor .assign target form frame _
  | lambda =>
      rcases args with _ | ⟨parameters, _ | ⟨second, _ | ⟨body, _ | ⟨fourth, rest⟩⟩⟩⟩
      · exact fail _
      · exact fail _
      · exact makeClosure parameters none second frame
      · cases second with
        | string doc => exact makeClosure parameters (some doc) body frame
        | _ => exact fail _
      · exact fail _
  | begin => exact sequence args frame
  | doBlock => exact sequence args frame
  | letBlock =>
      rcases args with _ | ⟨first, body⟩
      · exact fail _
      · cases first with
        | list bindings => exact bindNext [] bindings body frame
        | _ => exact fail _
  | evalText =>
      rcases args with _ | ⟨form, _ | ⟨second, rest⟩⟩
      · exact fail _
      · cases form with
        | string text => exact evalText text frame
        | list items => exact descend _ _ frame
        | symbol name => exact descend _ _ frame
        | _ => exact fail _
      · cases form <;> exact fail _
  | readText =>
      rcases args with _ | ⟨form, _ | ⟨second, rest⟩⟩
      · exact fail _
      · exact descend _ form frame
      · exact fail _
  | defineMacro =>
      rcases args with _ | ⟨target, _ | ⟨form, rest⟩⟩
      · exact fail _
      · exact fail _
      · exact evalFor .defineMacro target form frame _
  | expandMacro =>
      rcases args with _ | ⟨form, _ | ⟨second, rest⟩⟩
      · exact fail _
      · exact expandMacro form frame
      · exact fail _
  | synonym => exact bindAliases args frame

/-! ## Steps -/

theorem evalStep (form : Value) (frame : FrameId) : Uniform fun c => c.evalStep form frame := by
  match form with
  | .symbol name =>
      exact fun store =>
        ⟨.finish ((store.lookup? frame name).getD .nil) store, fun _ _ => rfl⟩
  | .nil | .bool _ | .number _ | .string _ | .char _ | .error _ | .list [] | .hash _ _
  | .procedure _ => exact finish _
  | .list (head :: operands) =>
      simp only [Context.evalStep]
      split
      · exact special _ operands frame
      · exact descend _ head frame

theorem yieldStep (use : Use) (value : Value) : Uniform fun c => c.yieldStep use value := by
  cases use with
  | answer => exact finish value
  | expansion frame =>
      simp only [Context.yieldStep]
      split
      · exact finish value
      · exact eval value frame
  | element callee done rest frame outer =>
      simp only [Context.yieldStep]
      split
      · exact yield outer value
      · exact nextElement callee _ rest frame outer

theorem resumeStep (pending : Pending) (value : Value) :
    Uniform fun c => c.resumeStep pending value := by
  cases pending with
  | test consequent alternative frame =>
      simp only [Context.resumeStep]
      split
      · exact finish value
      · split
        · exact eval consequent frame
        · cases alternative with
          | some form => exact eval form frame
          | none => exact finish .nil
  | define name frame => exact withStore _ .nil
  | assign name frame =>
      intro store
      cases found : store.assignee? frame name with
      | some target =>
          exact ⟨.finish .nil (store.define target name value),
            fun _ _ => by simp only [Context.resumeStep, found]; rfl⟩
      | none =>
          exact ⟨.finish (.error (.notFound name)) store,
            fun _ _ => by simp only [Context.resumeStep, found]; rfl⟩
  | sequence rest frame => exact sequence rest frame
  | binding done name rest body frame => exact bindNext _ rest body frame
  | evalText frame =>
      simp only [Context.resumeStep]
      split
      · exact finish value
      · exact evalText _ frame
  | readText =>
      simp only [Context.resumeStep]
      split
      · exact finish value
      · exact readText _
  | defineMacro name frame =>
      simp only [Context.resumeStep]
      split
      · exact withStore _ .nil
      · exact fail _
      · exact fail _
  | result use => exact yield use value
  | operator head operands frame =>
      simp only [Context.resumeStep]
      split
      · split
        · exact callProcedure _ operands frame _
        · exact applyNext _ [] operands frame
      · exact fail _
      · exact fail _
  | operand p done rest frame => exact applyNext p _ rest frame
  | hole template kind done rest frame =>
      cases kind with
      | value => exact fillNext template _ rest frame
      | splice =>
          simp only [Context.resumeStep]
          split
          · exact fillNext template _ rest frame
          · exact fail _
          · exact fail _

end Uniform

/-- Unless the current evaluation is finished, the control and the store settle the next move. -/
theorem State.step_performs (control : Control) (store : Store)
    (unfinished : ∀ value, control ≠ .finish value) :
    ∃ move : Move, ∀ stack room,
      State.step ⟨control, ⟨stack, room, store⟩⟩ = .running (move.perform stack room) := by
  have performs : ∀ {rule : Context → State}, Uniform rule →
      (∀ c, State.step ⟨control, c⟩ = .running (rule c)) → ∃ move : Move, ∀ stack room,
        State.step ⟨control, ⟨stack, room, store⟩⟩ = .running (move.perform stack room) := by
    intro rule uniform stepped
    obtain ⟨move, performed⟩ := uniform store
    exact ⟨move, fun stack room => by rw [stepped, performed]⟩
  cases control with
  | eval form frame => exact performs (.evalStep form frame) fun _ => rfl
  | call callee args frame use => exact performs (.call callee args frame use) fun _ => rfl
  | yield use value => exact performs (.yieldStep use value) fun _ => rfl
  | resume pending value => exact performs (.resumeStep pending value) fun _ => rfl
  | refuse pending => exact performs (.resumeStep pending (.error .depthExceeded)) fun _ => rfl
  | finish value => exact absurd rfl (unfinished value)

/-- A step of the machine leaves a finished evaluation for the work that waits for it, or makes a
move. -/
theorem State.step_cases {control : Control} {stack : List Pending} {room : Nat} {store : Store}
    {next : State} (stepped : State.step ⟨control, ⟨stack, room, store⟩⟩ = .running next) :
    (∃ value pending rest, control = .finish value ∧ stack = pending :: rest ∧
      next = ⟨.resume pending value, ⟨rest, room + 1, store⟩⟩) ∨
    ∃ move : Move, next = move.perform stack room ∧ ∀ stack room,
      State.step ⟨control, ⟨stack, room, store⟩⟩ = .running (move.perform stack room) := by
  by_cases finished : ∃ value, control = .finish value
  · obtain ⟨value, rfl⟩ := finished
    cases stack with
    | nil => cases stepped
    | cons pending rest =>
        cases stepped
        exact .inl ⟨value, pending, rest, rfl, rfl, rfl⟩
  · obtain ⟨move, performs⟩ :=
      step_performs control store fun value finish => finished ⟨value, finish⟩
    rw [performs] at stepped
    cases stepped
    exact .inr ⟨move, rfl, performs⟩

/-- The machine halts only when the evaluation that it began with has finished. -/
theorem State.finish_of_halted {s : State} {value : Value} {store : Store}
    (halted : s.step = .halted value store) : ∃ room, s = ⟨.finish value, ⟨[], room, store⟩⟩ := by
  obtain ⟨control, stack, room, before⟩ := s
  by_cases finished : ∃ value, control = .finish value
  · obtain ⟨other, rfl⟩ := finished
    cases stack with
    | nil =>
        cases halted
        exact ⟨room, rfl⟩
    | cons pending stack => cases halted
  · obtain ⟨move, performs⟩ :=
      step_performs control before fun value finish => finished ⟨value, finish⟩
    rw [performs] at halted
    cases halted

end Lisp
