import Lisp.Proofs.Direct.Template
import Lisp.Proofs.Machine.Steps

/-! The machine follows the direct evaluator. Each rule of the machine leads to the state in which
the result of the direct rule is taken up, whatever stands on the stack; where the direct evaluator
is cut off after `fuel` recursive calls, the machine makes at least `fuel` steps. One induction on
the fuel therefore covers runs that end and runs that do not. -/

set_option autoImplicit false

namespace Lisp.Direct

/-- The machine leads from `start` to the state that takes up the result of a computation, and runs
on for `fuel` steps when there is no result. Where the direct evaluator has no limit, the machine
may instead be refused room. -/
def Follows {α : Type} (limit : Limit) (fuel : Nat) (start : State) (result : Option (α × Store))
    (resume : α → Store → State) : Prop :=
  limit = none ∧ start.Refused ∨
    match result with
    | some (value, store) => start.Reaches (resume value store)
    | none => start.RunsFor fuel

namespace Follows

variable {α β : Type} {limit : Limit} {fuel : Nat} {start next : State}
  {result : Option (α × Store)} {resume : α → Store → State}

theorem done {value : α} {store : Store} (taken : start = resume value store) :
    Follows limit fuel start (some (value, store)) resume :=
  .inr (taken ▸ .refl _)

theorem reaches {value : α} {store : Store}
    (follows : Follows limit fuel start (some (value, store)) resume)
    (unrefused : limit = none → ¬ start.Refused) : start.Reaches (resume value store) :=
  follows.resolve_left fun refused => unrefused refused.1 refused.2

theorem runsFor (follows : Follows limit fuel start (none : Option (α × Store)) resume)
    (unrefused : limit = none → ¬ start.Refused) : start.RunsFor fuel :=
  follows.resolve_left fun refused => unrefused refused.1 refused.2

theorem step (stepped : start.step = .running next)
    (follows : Follows limit fuel next result resume) :
    Follows limit fuel start result resume := by
  rcases follows with ⟨unlimited, refused⟩ | follows
  · exact .inl ⟨unlimited, .ofReaches (.ofStep stepped) refused⟩
  · cases result with
    | some result => exact .inr (.trans (.ofStep stepped) follows)
    | none => exact .inr (State.RunsFor.succ stepped follows).pred

/-- A step of the machine makes up for one recursive call. -/
theorem stepSucc (stepped : start.step = .running next)
    (follows : Follows limit fuel next result resume) :
    Follows limit (fuel + 1) start result resume := by
  rcases follows with ⟨unlimited, refused⟩ | follows
  · exact .inl ⟨unlimited, .ofReaches (.ofStep stepped) refused⟩
  · cases result with
    | some result => exact .inr (.trans (.ofStep stepped) follows)
    | none => exact .inr (.succ stepped follows)

theorem thenReaches {resume' : α → Store → State} (follows : Follows limit fuel start result resume)
    (reaches : ∀ value store, (resume value store).Reaches (resume' value store)) :
    Follows limit fuel start result resume' := by
  rcases follows with ⟨unlimited, refused⟩ | follows
  · exact .inl ⟨unlimited, refused⟩
  · cases result with
    | some result => exact .inr (follows.trans (reaches result.1 result.2))
    | none => exact .inr follows

theorem bind {first : Run α} {next : α → Run β} {store : Store} {middle : α → Store → State}
    {resume : β → Store → State} (before : Follows limit fuel start (first store) middle)
    (after : ∀ value store, Follows limit fuel (middle value store) (next value store) resume) :
    Follows limit fuel start ((first >>= next) store) resume := by
  rcases before with ⟨unlimited, refused⟩ | before
  · exact .inl ⟨unlimited, refused⟩
  · rw [bind_apply]
    cases ended : first store with
    | none =>
        rw [ended] at before
        exact .inr before
    | some result =>
        obtain ⟨value, later⟩ := result
        rw [ended] at before
        rcases after value later with ⟨unlimited, refused⟩ | after
        · exact .inl ⟨unlimited, .ofReaches before refused⟩
        · cases finished : next value later with
          | none =>
              rw [finished] at after
              simp only [Option.bind_some, finished]
              exact .inr (before.runsFor after)
          | some outcome =>
              rw [finished] at after
              simp only [Option.bind_some, finished]
              exact .inr (before.trans after)

end Follows

/-! ## States that take up a value -/

/-- The current evaluation finishes with the value. -/
def finishing (stack : List Pending) (room : Nat) (value : Value) (store : Store) : State :=
  ⟨.finish value, ⟨stack, room, store⟩⟩

/-- The value is the value of a call. -/
def yielding (use : Use) (stack : List Pending) (room : Nat) (value : Value) (store : Store) :
    State :=
  ⟨.yield use value, ⟨stack, room, store⟩⟩

/-- Pending work takes up the value. -/
def resuming (pending : Pending) (stack : List Pending) (room : Nat) (value : Value)
    (store : Store) : State :=
  Context.resumeStep ⟨stack, room, store⟩ pending value

/-- The current evaluation finishes with an error, or goes on with a result. -/
def failingOr {α : Type} (stack : List Pending) (room : Nat) (resume : α → Store → State)
    (result : Except EvalError α) (store : Store) : State :=
  match result with
  | .error cause => ⟨.finish (.error cause), ⟨stack, room, store⟩⟩
  | .ok value => resume value store

/-- The machine follows the recursive calls of the rules. -/
structure Simulates (limit : Limit) (fuel room : Nat) (recur : Recursion) : Prop where
  tail : ∀ form frame stack store, Follows limit fuel ⟨.eval form frame, ⟨stack, room, store⟩⟩
    (recur.tail form frame store) (finishing stack room)
  nested : ∀ pending form frame stack store, Follows limit fuel
    (Context.descend ⟨stack, room, store⟩ pending form frame) (recur.nested form frame store)
    (resuming pending stack room)
  call : ∀ callee args frame use stack store, Follows limit fuel
    ⟨.call callee args frame use, ⟨stack, room, store⟩⟩ (recur.call callee args frame store)
    (yielding use stack room)

namespace Simulates

variable {limit : Limit} {fuel room : Nat} {recur : Recursion}

/-! ## Sequences, bindings and templates -/

theorem sequence (sim : Simulates limit fuel room recur) (forms : List Value) (frame : FrameId)
    (stack : List Pending) (store : Store) :
    Follows limit fuel (Context.sequence ⟨stack, room, store⟩ forms frame)
      (Direct.sequence recur forms frame store) (finishing stack room) := by
  induction forms generalizing store with
  | nil => exact .done rfl
  | cons form rest ih =>
      cases rest with
      | nil => exact sim.tail form frame stack store
      | cons second rest =>
          exact .bind (sim.nested (.sequence (second :: rest) frame) form frame stack store)
            fun _ store => ih store

theorem values (sim : Simulates limit fuel room recur) (p : Procedure Value)
    (done rest : List Value) (frame : FrameId) (stack : List Pending) (store : Store) :
    Follows limit fuel (Context.applyNext ⟨stack, room, store⟩ p done rest frame)
      (Direct.values recur rest frame store)
      (fun args store => Context.apply ⟨stack, room, store⟩ p (done.reverse ++ args) frame) := by
  induction rest generalizing done store with
  | nil =>
      exact .done (by rw [List.append_nil]; rfl)
  | cons form rest ih =>
      refine .bind (sim.nested (.operand p done rest frame) form frame stack store) ?_
      intro value store
      refine .bind (ih (value :: done) store) ?_
      intro others store
      exact .done (by rw [List.reverse_cons, List.append_assoc, List.singleton_append])

theorem bindingValues (sim : Simulates limit fuel room recur) (done : List (String × Value))
    (rest body : List Value) (frame : FrameId) (stack : List Pending) (store : Store) :
    Follows limit fuel (Context.bindNext ⟨stack, room, store⟩ done rest body frame)
      (Direct.bindingValues recur rest frame store)
      (failingOr stack room fun pairs store =>
        Context.enter ⟨stack, room, store⟩ frame (Dict.ofList (done.reverse ++ pairs))
          fun c inner => c.sequence body inner) := by
  induction rest generalizing done store with
  | nil =>
      exact .done (by simp only [failingOr, List.append_nil, Context.bindNext])
  | cons binding rest ih =>
      by_cases pair : ∃ target form, binding = .list [target, form]
      · obtain ⟨target, form, rfl⟩ := pair
        cases named : symbolName "let" target with
        | error cause =>
            simp only [Context.bindNext, Direct.bindingValues, named]
            exact .done rfl
        | ok name =>
            simp only [Context.bindNext, Direct.bindingValues, named]
            refine .bind (sim.nested (.binding done name rest body frame) form frame stack store) ?_
            intro value store
            refine .bind (ih ((name, value) :: done) store) ?_
            intro others store
            cases others with
            | error cause => exact .done rfl
            | ok others =>
                exact .done (by
                  simp only [failingOr, Except.map, List.reverse_cons, List.append_assoc,
                    List.singleton_append])
      · have malformed : ∀ target form, binding = .list [target, form] → False :=
          fun target form equal => pair ⟨target, form, equal⟩
        rw [Context.bindNext, Direct.bindingValues]
        · exact .done rfl
        · exact malformed
        · exact malformed

/-- The value of a hole is kept, or it is an error for the template. -/
theorem hole_resumed (template : Value) (kind : HoleKind) (done : List Value) (rest : List Hole)
    (frame : FrameId) (stack : List Pending) (value : Value) (store : Store) :
    resuming (.hole template kind done rest frame) stack room value store =
      failingOr stack room
        (fun _ store => Context.fillNext ⟨stack, room, store⟩ template (value :: done) rest frame)
        (checkHole kind value) store := by
  cases kind with
  | value => rfl
  | splice =>
      cases found : value.spliceItems? with
      | some items =>
          simp only [resuming, Context.resumeStep, checkHole, splicedItems, found, Except.map,
            failingOr]
      | none =>
          cases value <;>
            simp only [resuming, Context.resumeStep, checkHole, splicedItems, found, Except.map,
              failingOr, Context.fail]

theorem holeValues (sim : Simulates limit fuel room recur) (template : Value) (done : List Value)
    (rest : List Hole) (frame : FrameId) (stack : List Pending) (store : Store) :
    Follows limit fuel (Context.fillNext ⟨stack, room, store⟩ template done rest frame)
      (Direct.holeValues recur rest frame store)
      (failingOr stack room fun values =>
        finishing stack room (Template.fill template (done.reverse ++ values)).1) := by
  induction rest generalizing done store with
  | nil => exact .done (by rw [failingOr, List.append_nil]; rfl)
  | cons hole rest ih =>
      refine .bind (sim.nested (.hole template hole.kind done rest frame) hole.operand frame stack
        store) ?_
      intro value store
      rw [hole_resumed]
      cases checkHole hole.kind value with
      | error cause => exact .done rfl
      | ok _ =>
          refine .bind (ih (value :: done) store) ?_
          intro others store
          cases others with
          | error cause => exact .done rfl
          | ok others =>
              exact .done (by
                simp only [failingOr, Except.map, List.reverse_cons, List.append_assoc,
                  List.singleton_append])

theorem quasiquote (sim : Simulates limit fuel room recur) (form : Value) (frame : FrameId)
    (stack : List Pending) (store : Store) :
    Follows limit fuel
      (Context.fillNext ⟨stack, room, store⟩ form [] (Template.holes form) frame)
      (Direct.quasiquote recur form frame store) (finishing stack room) := by
  have copied : Follows limit fuel
      (Context.fillNext ⟨stack, room, store⟩ form [] (Template.holes form) frame)
      (template recur form frame store) (failingOr stack room (finishing stack room)) := by
    rw [template_eq]
    refine .bind (sim.holeValues form [] (Template.holes form) frame stack store) ?_
    intro values store
    cases values <;> exact .done rfl
  refine .bind copied ?_
  intro copy store
  cases copy <;> exact .done rfl

/-! ## Calls -/

theorem mapItems (sim : Simulates limit fuel room recur) (callee : Procedure Value)
    (done rest : List Value) (frame : FrameId) (use : Use) (stack : List Pending) (store : Store) :
    Follows limit fuel (Context.nextElement ⟨stack, room, store⟩ callee done rest frame use)
      (Direct.mapItems recur callee rest frame store)
      (fun results => yielding use stack room
        (match results with
        | .error cause => .error cause
        | .ok results => .list (done.reverse ++ results))) := by
  induction rest generalizing done store with
  | nil => exact .done (by simp only [List.append_nil]; rfl)
  | cons item rest ih =>
      refine .bind (sim.call (.procedure callee) [item] frame (.element callee done rest frame use)
        stack store) ?_
      intro value store
      refine .step rfl ?_
      cases value with
      | error cause => exact .done rfl
      | _ =>
          refine .bind (ih (_ :: done) store) ?_
          intro others store
          cases others with
          | error cause => exact .done rfl
          | ok others =>
              exact .done (by
                simp only [Except.map, List.reverse_cons, List.append_assoc,
                  List.singleton_append])

theorem native (sim : Simulates limit fuel room recur) (operation : Native) (args : List Value)
    (frame : FrameId) (use : Use) (stack : List Pending) (store : Store) :
    Follows limit fuel (Context.callNative ⟨stack, room, store⟩ operation args frame use)
      (Direct.native recur operation args frame store) (yielding use stack room) := by
  rw [Context.callNative, Direct.native]
  cases operation.reply args with
  | value v => exact .done rfl
  | write text =>
      rcases found : store.writeOutput frame text with ⟨failure, written⟩
      simp only [act_apply, found]
      cases failure <;> exact .done rfl
  | readLine =>
      rcases found : store.readLine frame with ⟨line, left⟩
      simp only [act_apply, found]
      rcases line with failure | line | line <;> exact .done rfl
  | call callee args => exact sim.call callee args frame use stack store
  | each callee items =>
      refine .bind (sim.mapItems callee [] items frame use stack store) ?_
      intro results store
      cases results <;> exact .done rfl

theorem callProcedure (sim : Simulates limit fuel room recur) (p : Procedure Value)
    (args : List Value) (frame : FrameId) (use : Use) (stack : List Pending) (store : Store) :
    Follows limit fuel (Context.callProcedure ⟨stack, room, store⟩ p args frame use)
      (Direct.callProcedure recur p args frame store) (yielding use stack room) := by
  rw [Context.callProcedure, Direct.callProcedure, Direct.enter]
  cases p.callable with
  | native operation => exact sim.native operation args frame use stack store
  | closure closure =>
      dsimp only
      cases bindArguments p closure args with
      | error cause => exact .done rfl
      | ok bindings => exact sim.nested (.result use) closure.body _ stack _

theorem apply (sim : Simulates limit fuel room recur) (p : Procedure Value)
    (args : List Value) (frame : FrameId) (stack : List Pending) (store : Store) :
    Follows limit fuel (Context.apply ⟨stack, room, store⟩ p args frame)
      (Direct.apply recur p args frame store) (finishing stack room) := by
  rw [Context.apply, Direct.apply, Direct.enter]
  cases p.callable with
  | native operation =>
      exact (sim.native operation args frame .answer stack store).thenReaches
        fun _ _ => .ofStep rfl
  | closure closure =>
      dsimp only
      cases bindArguments p closure args with
      | error cause => exact .done rfl
      | ok bindings => exact sim.tail closure.body _ stack _

theorem callValue (sim : Simulates limit fuel room recur) (callee : Value) (args : List Value)
    (frame : FrameId) (use : Use) (stack : List Pending) (store : Store) :
    Follows limit fuel (Context.call ⟨stack, room, store⟩ callee args frame use)
      (Direct.call recur callee args frame store) (yielding use stack room) := by
  cases callee with
  | procedure p => exact sim.callProcedure p args frame use stack store
  | _ => exact .done rfl

theorem application (sim : Simulates limit fuel room recur) (head : Value) (operands : List Value)
    (frame : FrameId) (stack : List Pending) (store : Store) :
    Follows limit fuel
      (Context.descend ⟨stack, room, store⟩ (.operator head operands frame) head frame)
      (Direct.application recur head operands frame store) (finishing stack room) := by
  refine .bind (sim.nested (.operator head operands frame) head frame stack store) ?_
  intro value store
  cases value with
  | procedure p =>
      cases isMacro : p.isMacro with
      | true =>
          simp only [resuming, Context.resumeStep, isMacro, if_true]
          refine .bind (sim.callProcedure p operands frame (.expansion frame) stack store) ?_
          intro expansion store
          refine .step rfl ?_
          cases failed : expansion.isError with
          | true => exact .done (by simp only [Context.yieldStep, failed, if_true]; rfl)
          | false =>
              simp only [Context.yieldStep, failed]
              exact sim.tail expansion frame stack store
      | false =>
          simp only [resuming, Context.resumeStep, isMacro]
          refine .bind (sim.values p [] operands frame stack store) ?_
          intro args store
          exact sim.apply p args frame stack store
  | _ => exact .done rfl

/-! ## Special forms -/

theorem evalFor (sim : Simulates limit fuel room recur) (keyword : Keyword) (target form : Value)
    (frame : FrameId) (pending : String → Pending) (next : String → Value → Run Value)
    (stack : List Pending) (store : Store)
    (resumes : ∀ name value store, Follows limit fuel
      (resuming (pending name) stack room value store) (next name value store)
      (finishing stack room)) :
    Follows limit fuel (Context.evalFor ⟨stack, room, store⟩ keyword target form frame pending)
      (Direct.evalFor recur keyword target form frame next store) (finishing stack room) := by
  rw [Context.evalFor, Direct.evalFor]
  cases symbolName keyword.name target with
  | error cause => exact .done rfl
  | ok name =>
      exact .bind (sim.nested (pending name) form frame stack store)
        fun value store => resumes name value store

theorem makeClosure (parameters : Value) (doc : Option String) (body : Value) (frame : FrameId)
    (stack : List Pending) (store : Store) :
    Follows limit fuel (Context.makeClosure ⟨stack, room, store⟩ parameters doc body frame)
      (Direct.makeClosure parameters doc body frame store) (finishing stack room) := by
  rw [Context.makeClosure, Direct.makeClosure]
  cases parameterNames parameters <;> exact .done rfl

theorem assignOuter (frame : FrameId) (name : String) (value : Value) (stack : List Pending)
    (store : Store) :
    Follows limit fuel (resuming (.assign name frame) stack room value store)
      (Direct.assignOuter frame name value store) (finishing stack room) := by
  simp only [resuming, Context.resumeStep, Direct.assignOuter, act_apply]
  cases store.assignee? frame name <;> exact .done rfl

theorem defineMacro (frame : FrameId) (name : String) (value : Value) (stack : List Pending)
    (store : Store) :
    Follows limit fuel (resuming (.defineMacro name frame) stack room value store)
      (Direct.defineMacro frame name value store) (finishing stack room) := by
  cases value with
  | procedure p =>
      obtain ⟨callable, isMacro⟩ := p
      cases callable <;> exact .done rfl
  | _ => exact .done rfl

theorem evalText (sim : Simulates limit fuel room recur) (text : String) (frame : FrameId)
    (stack : List Pending) (store : Store) :
    Follows limit fuel (Context.evalText ⟨stack, room, store⟩ text frame)
      (Direct.evalText recur text frame store) (finishing stack room) := by
  rw [Context.evalText, Direct.evalText]
  cases readAll text with
  | error cause => exact .done rfl
  | ok forms =>
      match forms with
      | [] => exact .done rfl
      | [form] => exact sim.tail form _ stack _
      | first :: second :: rest =>
          exact sim.tail (.list (.symbol "begin" :: first :: second :: rest)) _ stack _

theorem readText (text : String) (stack : List Pending) (store : Store) :
    Follows limit fuel (Context.readText ⟨stack, room, store⟩ text)
      (Direct.readText text store) (finishing stack room) := by
  rw [Context.readText, Direct.readText]
  rcases readFirst text with cause | form | form <;> exact .done rfl

/-- Pending work that passes an error on and puts any other value's text to use. -/
theorem textOf (sim : Simulates limit fuel room recur) (form : Value) (frame : FrameId)
    (pending : Pending) (use : String → Run Value) (stack : List Pending) (store : Store)
    (passes : ∀ cause store, resuming pending stack room (.error cause) store =
      finishing stack room (.error cause) store)
    (resumes : ∀ value store, value.isError = false → Follows limit fuel
      (resuming pending stack room value store) (use value.plainText store)
      (finishing stack room)) :
    Follows limit fuel (Context.descend ⟨stack, room, store⟩ pending form frame)
      (Direct.textOf recur form frame use store) (finishing stack room) := by
  refine .bind (sim.nested pending form frame stack store) ?_
  intro value store
  cases value with
  | error cause => exact .done (passes cause store)
  | _ => exact resumes _ store rfl

theorem evaluatedText (sim : Simulates limit fuel room recur) (form : Value) (frame : FrameId)
    (stack : List Pending) (store : Store) :
    Follows limit fuel (Context.descend ⟨stack, room, store⟩ (.evalText frame) form frame)
      (Direct.textOf recur form frame (Direct.evalText recur · frame) store)
      (finishing stack room) := by
  refine sim.textOf form frame (.evalText frame) _ stack store (fun _ _ => rfl) ?_
  intro value store plain
  simp only [resuming, Context.resumeStep, plain]
  exact sim.evalText value.plainText frame stack store

theorem conditional (sim : Simulates limit fuel room recur) (test consequent : Value)
    (alternative : Option Value) (frame : FrameId) (stack : List Pending) (store : Store) :
    Follows limit fuel
      (Context.descend ⟨stack, room, store⟩ (.test consequent alternative frame) test frame)
      (Direct.conditional recur test consequent alternative frame store)
      (finishing stack room) := by
  refine .bind (sim.nested (.test consequent alternative frame) test frame stack store) ?_
  intro value store
  simp only [resuming, Context.resumeStep]
  cases value.isError with
  | true => exact .done rfl
  | false =>
      cases value.isTruthy with
      | true => exact sim.tail consequent frame stack store
      | false =>
          cases alternative with
          | none => exact .done rfl
          | some form => exact sim.tail form frame stack store

theorem letBlock (sim : Simulates limit fuel room recur) (bindings body : List Value)
    (frame : FrameId) (stack : List Pending) (store : Store) :
    Follows limit fuel (Context.bindNext ⟨stack, room, store⟩ [] bindings body frame)
      (Direct.letBlock recur bindings body frame store) (finishing stack room) := by
  refine .bind (sim.bindingValues [] bindings body frame stack store) ?_
  intro pairs store
  cases pairs with
  | error cause => exact .done rfl
  | ok pairs => exact sim.sequence body _ stack _

theorem expandMacro (sim : Simulates limit fuel room recur) (form : Value) (frame : FrameId)
    (stack : List Pending) (store : Store) :
    Follows limit fuel (Context.special ⟨stack, room, store⟩ .expandMacro [form] frame)
      (Direct.expandMacro recur form frame store) (finishing stack room) := by
  simp only [Context.special, Direct.expandMacro, bind_apply, act_apply, Option.bind_some]
  cases Context.macroCall? store frame form with
  | none => exact .done rfl
  | some found =>
      exact (sim.callProcedure found.1 found.2 frame .answer stack store).thenReaches
        fun _ _ => .ofStep rfl

theorem bindAliases (args : List Value) (frame : FrameId) (stack : List Pending) (store : Store) :
    Follows limit fuel (Context.special ⟨stack, room, store⟩ .synonym args frame)
      (Direct.special recur .synonym args frame store) (finishing stack room) := by
  simp only [Context.special, Direct.special]
  split
  · exact .done rfl
  · simp only [Direct.bindAliases, act_apply]
    rcases Context.bindAliases store frame args with ⟨_ | cause, bound⟩ <;> exact .done rfl

theorem special (sim : Simulates limit fuel room recur) (keyword : Keyword) (args : List Value)
    (frame : FrameId) (stack : List Pending) (store : Store) :
    Follows limit fuel (Context.special ⟨stack, room, store⟩ keyword args frame)
      (Direct.special recur keyword args frame store) (finishing stack room) := by
  cases keyword with
  | quote => rcases args with _ | ⟨form, _ | ⟨second, rest⟩⟩ <;> exact .done rfl
  | quasiquote =>
      rcases args with _ | ⟨form, _ | ⟨second, rest⟩⟩
      · exact .done rfl
      · exact sim.quasiquote form frame stack store
      · exact .done rfl
  | conditional =>
      rcases args with _ | ⟨test, _ | ⟨consequent, _ | ⟨alternative, _ | ⟨fourth, rest⟩⟩⟩⟩
      · exact .done rfl
      · exact .done rfl
      · exact sim.conditional test consequent none frame stack store
      · exact sim.conditional test consequent (some alternative) frame stack store
      · exact .done rfl
  | define =>
      rcases args with _ | ⟨target, _ | ⟨form, rest⟩⟩
      · exact .done rfl
      · exact .done rfl
      · exact sim.evalFor .define target form frame _ _ stack store fun _ _ _ => .done rfl
  | assign =>
      rcases args with _ | ⟨target, _ | ⟨form, _ | ⟨outer, rest⟩⟩⟩
      · exact .done rfl
      · exact .done rfl
      · exact sim.evalFor .assign target form frame _ _ stack store fun _ _ _ => .done rfl
      · exact sim.evalFor .assign target form frame _ _ stack store fun name value store =>
          assignOuter frame name value stack store
  | lambda =>
      rcases args with _ | ⟨parameters, _ | ⟨second, _ | ⟨body, _ | ⟨fourth, rest⟩⟩⟩⟩
      · exact .done rfl
      · exact .done rfl
      · exact makeClosure parameters none second frame stack store
      · cases second with
        | string doc => exact makeClosure parameters (some doc) body frame stack store
        | _ => exact .done rfl
      · exact .done rfl
  | begin => exact sim.sequence args frame stack store
  | doBlock => exact sim.sequence args frame stack store
  | letBlock =>
      rcases args with _ | ⟨first, body⟩
      · exact .done rfl
      · cases first with
        | list bindings => exact sim.letBlock bindings body frame stack store
        | _ => exact .done rfl
  | evalText =>
      rcases args with _ | ⟨form, _ | ⟨second, rest⟩⟩
      · exact .done rfl
      · cases form with
        | string text => exact sim.evalText text frame stack store
        | list items => exact sim.evaluatedText (.list items) frame stack store
        | symbol name => exact sim.evaluatedText (.symbol name) frame stack store
        | _ => exact .done rfl
      · cases form <;> exact .done rfl
  | readText =>
      rcases args with _ | ⟨form, _ | ⟨second, rest⟩⟩
      · exact .done rfl
      · refine sim.textOf form frame .readText _ stack store (fun _ _ => rfl) ?_
        intro value store plain
        simp only [resuming, Context.resumeStep, plain]
        exact readText value.plainText stack store
      · exact .done rfl
  | defineMacro =>
      rcases args with _ | ⟨target, _ | ⟨form, rest⟩⟩
      · exact .done rfl
      · exact .done rfl
      · exact sim.evalFor .defineMacro target form frame _ _ stack store fun name value store =>
          defineMacro frame name value stack store
  | expandMacro =>
      rcases args with _ | ⟨form, _ | ⟨second, rest⟩⟩
      · exact .done rfl
      · exact sim.expandMacro form frame stack store
      · exact .done rfl
  | synonym => exact bindAliases args frame stack store

theorem eval (sim : Simulates limit fuel room recur) (form : Value) (frame : FrameId)
    (stack : List Pending) (store : Store) :
    Follows limit fuel (Context.evalStep ⟨stack, room, store⟩ form frame)
      (Direct.eval recur form frame store) (finishing stack room) := by
  match form with
  | .nil | .bool _ | .number _ | .string _ | .char _ | .symbol _ | .error _ | .list []
  | .hash _ _ | .procedure _ => exact .done rfl
  | .list (head :: operands) =>
      simp only [Context.evalStep, Direct.eval]
      cases head.symbol?.bind Keyword.ofName? with
      | some keyword => exact sim.special keyword operands frame stack store
      | none => exact sim.application head operands frame stack store

end Simulates

/-! ## Runs -/

/-- The room that the machine has under a limit; any amount when there is no limit. -/
def Limit.Fits (limit : Limit) (room : Nat) : Prop :=
  limit = none ∨ limit = some room

/-- The machine follows a recursive evaluator under every limit. -/
def Simulated (fuel : Nat) (run : Limit → Request → Run Value) : Prop :=
  ∀ (limit : Limit) (room : Nat), limit.Fits room →
    (∀ form frame stack store, Follows limit fuel ⟨.eval form frame, ⟨stack, room, store⟩⟩
      (run limit (.eval form frame) store) (finishing stack room)) ∧
    ∀ callee args frame use stack store, Follows limit fuel
      ⟨.call callee args frame use, ⟨stack, room, store⟩⟩ (run limit (.call callee args frame) store)
      (yielding use stack room)

/-- Work that is handed a value goes on with it in one step. -/
private theorem nested_resumes {inner outer : Limit} {fuel room : Nat} {pending : Pending}
    {stack : List Pending} {start : State} {result : Option (Value × Store)}
    (unlimited : inner = none → outer = none)
    (follows : Follows inner fuel start result (finishing (pending :: stack) room)) :
    Follows outer fuel start result (resuming pending stack (room + 1)) := by
  have outward : Follows outer fuel start result (finishing (pending :: stack) room) :=
    follows.imp (fun refused => ⟨unlimited refused.1, refused.2⟩) id
  exact outward.thenReaches fun _ _ => (State.Reaches.ofStep rfl).trans (.ofStep rfl)

theorem Simulated.under {fuel : Nat} {run : Limit → Request → Run Value}
    (simulated : Simulated fuel run) {limit : Limit} {room : Nat} (fits : limit.Fits room) :
    Simulates limit fuel room (.under run limit) where
  tail := (simulated limit room fits).1
  call := (simulated limit room fits).2
  nested := by
    intro pending form frame stack store
    cases room with
    | zero =>
        rcases fits with rfl | rfl
        · exact .inl ⟨rfl, .here pending _⟩
        · exact .step rfl (.done rfl)
    | succ room =>
        rcases fits with rfl | rfl
        · exact nested_resumes id ((simulated none room (.inl rfl)).1 form frame _ store)
        · exact nested_resumes (by simp)
            ((simulated (some room) room (.inr rfl)).1 form frame _ store)

/-- The machine follows the direct evaluator, with a step for each recursive call. -/
theorem simulated_run (fuel : Nat) : Simulated fuel (run fuel) := by
  induction fuel with
  | zero =>
      intro limit room _
      exact ⟨fun _ _ _ _ => .inr (.zero _), fun _ _ _ _ _ _ => .inr (.zero _)⟩
  | succ fuel ih =>
      intro limit room fits
      have sim := ih.under fits
      exact ⟨fun form frame stack store => .stepSucc rfl (sim.eval form frame stack store),
        fun callee args frame use stack store =>
          .stepSucc rfl (sim.callValue callee args frame use stack store)⟩

end Lisp.Direct
