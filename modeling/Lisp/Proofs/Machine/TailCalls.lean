import Lisp.Proofs.Machine.Depth

/-! Tail calls. In each tail position of the language the machine goes on with another expression
where it stands: nothing is added to the stack, so the depth counter stays as it is, and any number
of tail calls may follow one another. -/

set_option autoImplicit false

namespace Lisp

/-! ## Evaluations that a rule waits for -/

/-- With the given budget an expression has a value, and `after` is the store then. -/
def Evaluates (budget : Nat) (form : Value) (frame : FrameId) (before : Store) (value : Value)
    (after : Store) : Prop :=
  ∃ fuel, evaluateWithin budget fuel form frame before = some (value, after)

inductive EvaluatesAll (budget : Nat) (frame : FrameId) :
    List Value → Store → List Value → Store → Prop where
  | nil (store : Store) : EvaluatesAll budget frame [] store [] store
  | cons {form value : Value} {forms values : List Value} {before middle after : Store}
      (first : Evaluates budget form frame before value middle)
      (rest : EvaluatesAll budget frame forms middle values after) :
      EvaluatesAll budget frame (form :: forms) before (value :: values) after

theorem EvaluatesAll.length_eq {budget : Nat} {frame : FrameId} {forms values : List Value}
    {before after : Store} (evaluated : EvaluatesAll budget frame forms before values after) :
    values.length = forms.length := by
  induction evaluated with
  | nil => rfl
  | cons _ _ ih => rw [List.length_cons, List.length_cons, ih]

/-- Work that asks for an evaluation resumes with its value, or with the error of a refusal, with
nothing else on the stack and as much room as before. -/
theorem Evaluates.resumes {budget : Nat} {form value : Value} {frame : FrameId}
    {before after : Store} (evaluates : Evaluates budget form frame before value after)
    (pending : Pending) (stack : List Pending) :
    (Context.descend ⟨stack, budget, before⟩ pending form frame).Reaches
      (Context.resumeStep ⟨stack, budget, after⟩ pending value) := by
  obtain ⟨fuel, ended⟩ := evaluates
  cases budget with
  | zero =>
      cases ended
      exact .ofStep rfl
  | succ room =>
      obtain ⟨left, finished⟩ := State.reaches_of_run ended
      obtain rfl : left = room :=
        Evaluation.room_of_reaches (e := ⟨form, frame, before⟩) finished rfl
      have above := (finished.lift (pending :: stack)).trans (.ofStep rfl)
      exact above.trans (.ofStep rfl)

theorem EvaluatesAll.sequence {budget : Nat} {frame : FrameId} {init values : List Value}
    {before after : Store} (effects : EvaluatesAll budget frame init before values after)
    (last : Value) (stack : List Pending) :
    (Context.sequence ⟨stack, budget, before⟩ (init ++ [last]) frame).Reaches
      ⟨.eval last frame, ⟨stack, budget, after⟩⟩ := by
  induction effects with
  | nil store => exact .refl _
  | @cons form value forms values before middle after first rest ih =>
      obtain ⟨second, more, shape⟩ : ∃ second more, forms ++ [last] = second :: more := by
        cases forms <;> simp
      rw [shape] at ih
      rw [List.cons_append, shape]
      exact (first.resumes (.sequence (second :: more) frame) stack).trans ih

theorem EvaluatesAll.applies {budget : Nat} {frame : FrameId} {operands args : List Value}
    {before after : Store} (evaluated : EvaluatesAll budget frame operands before args after)
    (p : Procedure Value) (done : List Value) (stack : List Pending) :
    (Context.applyNext ⟨stack, budget, before⟩ p done operands frame).Reaches
      (Context.apply ⟨stack, budget, after⟩ p (done.reverse ++ args) frame) := by
  induction evaluated generalizing done with
  | nil store =>
      rw [List.append_nil]
      exact .refl _
  | @cons form value forms args before middle after first rest ih =>
      have later := ih (value :: done)
      rw [List.reverse_cons, List.append_assoc, List.singleton_append] at later
      exact (first.resumes (.operand p done forms frame) stack).trans later

def bindingForms (bindings : List (String × Value)) : List Value :=
  bindings.map fun binding => .list [.symbol binding.1, binding.2]

theorem EvaluatesAll.binds {budget : Nat} {frame : FrameId} {bindings : List (String × Value)}
    {values : List Value} {before after : Store}
    (evaluated : EvaluatesAll budget frame (bindings.map Prod.snd) before values after)
    (done : List (String × Value)) (body : List Value) (stack : List Pending) :
    (Context.bindNext ⟨stack, budget, before⟩ done (bindingForms bindings) body frame).Reaches
      (Context.enter ⟨stack, budget, after⟩ frame
        (Dict.ofList (done.reverse ++ (bindings.map Prod.fst).zip values))
        fun c inner => c.sequence body inner) := by
  induction bindings generalizing done values before with
  | nil =>
      cases evaluated
      simp only [List.map_nil, List.zip_nil_left, List.append_nil]
      exact .refl _
  | cons binding rest ih =>
      obtain ⟨name, form⟩ := binding
      cases evaluated with
      | @cons _ value _ values _ middle _ first rest =>
          have later := ih rest ((name, value) :: done)
          rw [List.reverse_cons, List.append_assoc, List.singleton_append] at later
          exact (first.resumes (.binding done name _ body frame) stack).trans later

def Calls (budget : Nat) (callee : Value) (args : List Value) (frame : FrameId) (before : Store)
    (value : Value) (after : Store) : Prop :=
  ∃ fuel, callWithin budget fuel callee args frame before = some (value, after)

theorem Calls.yields {budget : Nat} {p : Procedure Value} {args : List Value} {frame : FrameId}
    {value : Value} {before after : Store}
    (calls : Calls budget (.procedure p) args frame before value after) (use : Use)
    (stack : List Pending) :
    (Context.callProcedure ⟨stack, budget, before⟩ p args frame use).Reaches
      ⟨.yield use value, ⟨stack, budget, after⟩⟩ := by
  obtain ⟨fuel, called⟩ := (callWithin_iff_run budget (.procedure p) args frame before _).mp calls
  cases fuel with
  | zero => cases called
  | succ fuel =>
      have fits : Direct.Limit.Fits (some budget) budget := .inr rfl
      have sim := (Direct.simulated_run fuel).under fits
      have follows := sim.callProcedure p args frame use stack before
      change Direct.callProcedure _ p args frame before = some (value, after) at called
      rw [called] at follows
      exact follows.reaches nofun

/-! ## Tail calls -/

def Keyword.form (keyword : Keyword) (operands : List Value) : Value :=
  .list (.symbol keyword.name :: operands)

theorem evaluates_quote (v : Value) (room : Nat) (frame : FrameId) (store : Store) :
    Evaluates (room + 1) (Keyword.quote.form [v]) frame store v store :=
  ⟨2, rfl⟩

/-- The expression that the expressions of a text are evaluated as. -/
def programForm : List Value → Value
  | [form] => form
  | forms => Keyword.begin.form forms

/-- One evaluation goes on as another: the second expression stands in a tail position of the first,
and `room` is what the evaluations have that are needed to get there. -/
inductive TailCall (room : Nat) : Evaluation → Evaluation → Prop where
  | consequent {test consequent value : Value} {others : List Value} {frame : FrameId}
      {before after : Store} (atMostOne : others.length ≤ 1)
      (tested : Evaluates room test frame before value after) (plain : value.isError = false)
      (holds : value.isTruthy = true) :
      TailCall room ⟨Keyword.conditional.form (test :: consequent :: others), frame, before⟩
        ⟨consequent, frame, after⟩
  | alternative {test consequent alternative value : Value} {frame : FrameId}
      {before after : Store} (tested : Evaluates room test frame before value after)
      (plain : value.isError = false) (fails : value.isTruthy = false) :
      TailCall room ⟨Keyword.conditional.form [test, consequent, alternative], frame, before⟩
        ⟨alternative, frame, after⟩
  | last {keyword : Keyword} {init values : List Value} {last : Value} {frame : FrameId}
      {before after : Store} (block : keyword = .begin ∨ keyword = .doBlock)
      (effects : EvaluatesAll room frame init before values after) :
      TailCall room ⟨keyword.form (init ++ [last]), frame, before⟩ ⟨last, frame, after⟩
  | letBody {bindings : List (String × Value)} {values init results : List Value} {last : Value}
      {frame inner : FrameId} {before middle inside after : Store}
      (bound : EvaluatesAll room frame (bindings.map Prod.snd) before values middle)
      (entered : middle.addChild frame (Dict.ofList ((bindings.map Prod.fst).zip values)) =
        (inner, inside))
      (effects : EvaluatesAll room inner init inside results after) :
      TailCall room ⟨Keyword.letBlock.form (.list (bindingForms bindings) :: (init ++ [last])), frame,
        before⟩ ⟨last, inner, after⟩
  | body {head : Value} {operands args : List Value} {p : Procedure Value}
      {closure : Closure Value} {arguments : Dict Value} {frame inner : FrameId}
      {before called middle after : Store} (application : head.symbol?.bind Keyword.ofName? = none)
      (operator : Evaluates room head frame before (.procedure p) called)
      (function : p.isMacro = false)
      (evaluated : EvaluatesAll room frame operands called args middle)
      (callable : p.callable = .closure closure)
      (accepted : bindArguments p closure args = .ok arguments)
      (entered : middle.addChild closure.home arguments = (inner, after)) :
      TailCall room ⟨.list (head :: operands), frame, before⟩ ⟨closure.body, inner, after⟩
  | expansion {head expansion : Value} {operands : List Value} {p : Procedure Value}
      {frame : FrameId} {before called after : Store}
      (application : head.symbol?.bind Keyword.ofName? = none)
      (operator : Evaluates room head frame before (.procedure p) called)
      (isMacro : p.isMacro = true)
      (expanded : Calls room (.procedure p) operands frame called expansion after)
      (plain : expansion.isError = false) :
      TailCall room ⟨.list (head :: operands), frame, before⟩ ⟨expansion, frame, after⟩
  | literalText {text : String} {forms : List Value} {frame inner : FrameId} {before after : Store}
      (read : readAll text = .ok forms) (nonempty : forms ≠ [])
      (entered : before.addChild frame [] = (inner, after)) :
      TailCall room ⟨Keyword.evalText.form [.string text], frame, before⟩
        ⟨programForm forms, inner, after⟩
  | computedText {operand value : Value} {forms : List Value} {frame inner : FrameId}
      {before middle after : Store}
      (computed : (∃ items, operand = .list items) ∨ ∃ name, operand = .symbol name)
      (evaluated : Evaluates room operand frame before value middle)
      (plain : value.isError = false) (read : readAll value.plainText = .ok forms)
      (nonempty : forms ≠ []) (entered : middle.addChild frame [] = (inner, after)) :
      TailCall room ⟨Keyword.evalText.form [operand], frame, before⟩
        ⟨programForm forms, inner, after⟩

theorem evalStep_form (keyword : Keyword) (operands : List Value) (frame : FrameId) (c : Context) :
    c.evalStep (keyword.form operands) frame = c.special keyword operands frame := by
  cases keyword <;> rfl

theorem step_form (keyword : Keyword) (operands : List Value) (frame : FrameId) (c : Context) :
    State.step ⟨.eval (keyword.form operands) frame, c⟩ =
      .running (c.special keyword operands frame) := by
  rw [State.step, evalStep_form]

theorem evalStep_application {head : Value} (application : head.symbol?.bind Keyword.ofName? = none)
    (operands : List Value) (frame : FrameId) (c : Context) :
    c.evalStep (.list (head :: operands)) frame =
      c.descend (.operator head operands frame) head frame := by
  simp only [Context.evalStep, application]

theorem enter_eq {outer inner : FrameId} {bindings : Dict Value} {before after : Store}
    (entered : before.addChild outer bindings = (inner, after)) (stack : List Pending) (room : Nat)
    (next : Context → FrameId → State) :
    Context.enter ⟨stack, room, before⟩ outer bindings next = next ⟨stack, room, after⟩ inner := by
  simp only [Context.enter, entered]

theorem evalText_eq {text : String} {forms : List Value} {frame inner : FrameId}
    {before after : Store} (read : readAll text = .ok forms) (nonempty : forms ≠ [])
    (entered : before.addChild frame [] = (inner, after)) (stack : List Pending) (room : Nat) :
    Context.evalText ⟨stack, room, before⟩ text frame =
      ⟨.eval (programForm forms) inner, ⟨stack, room, after⟩⟩ := by
  simp only [Context.evalText, read, enter_eq entered]
  rcases forms with _ | ⟨form, _ | ⟨second, rest⟩⟩
  · exact absurd rfl nonempty
  · rfl
  · rfl

theorem TailCall.reaches {room : Nat} {e later : Evaluation} (call : TailCall room e later)
    (stack : List Pending) : (e.start stack room).Reaches (later.start stack room) := by
  refine State.Reaches.trans (.ofStep rfl) ?_
  cases call with
  | @consequent test consequent value others frame before after atMostOne tested plain holds =>
      rw [evalStep_form]
      rcases others with _ | ⟨alternative, _ | ⟨third, rest⟩⟩
      · have resumed := tested.resumes (.test consequent none frame) stack
        simp only [Context.resumeStep, plain, holds] at resumed
        exact resumed
      · have resumed := tested.resumes (.test consequent (some alternative) frame) stack
        simp only [Context.resumeStep, plain, holds] at resumed
        exact resumed
      · simp at atMostOne
  | @alternative test consequent alternative value frame before after tested plain fails =>
      rw [evalStep_form]
      have resumed := tested.resumes (.test consequent (some alternative) frame) stack
      simp only [Context.resumeStep, plain, fails] at resumed
      exact resumed
  | last block effects =>
      rw [evalStep_form]
      rcases block with rfl | rfl <;> exact effects.sequence _ stack
  | @letBody bindings values init results last frame inner before middle inside after bound entered
      effects =>
      rw [evalStep_form]
      have bindsAll := bound.binds [] (init ++ [last]) stack
      rw [List.reverse_nil, List.nil_append, enter_eq entered] at bindsAll
      exact bindsAll.trans (effects.sequence last stack)
  | @body head operands args p closure arguments frame inner before called middle after application
      operator function evaluated callable accepted entered =>
      rw [evalStep_application application]
      refine (operator.resumes (.operator head operands frame) stack).trans ?_
      simp only [Context.resumeStep, function]
      have applied := evaluated.applies p [] stack
      simp only [List.reverse_nil, List.nil_append, Context.apply, callable, accepted,
        enter_eq entered] at applied
      exact applied
  | @expansion head expansion operands p frame before called after application operator isMacro
      expanded plain =>
      rw [evalStep_application application]
      refine (operator.resumes (.operator head operands frame) stack).trans ?_
      simp only [Context.resumeStep, isMacro, if_true]
      refine (expanded.yields (.expansion frame) stack).trans (.trans (.ofStep rfl) ?_)
      simp only [Context.yieldStep, plain]
      exact .refl _
  | literalText read nonempty entered =>
      rw [evalStep_form]
      simp only [Context.special, evalText_eq read nonempty entered]
      exact .refl _
  | @computedText operand value forms frame inner before middle after computed evaluated plain read
      nonempty entered =>
      rw [evalStep_form]
      have resumed := evaluated.resumes (.evalText frame) stack
      simp only [Context.resumeStep, plain, evalText_eq read nonempty entered] at resumed
      rcases computed with ⟨items, rfl⟩ | ⟨name, rfl⟩ <;> exact resumed

theorem TailCall.reaches_chain {room : Nat} {e later : Evaluation}
    (calls : Relation.ReflTransGen (TailCall room) e later) (stack : List Pending) :
    (e.start stack room).Reaches (later.start stack room) := by
  induction calls with
  | refl => exact .refl _
  | tail _ call ih => exact ih.trans (call.reaches stack)

/-! ## The depth of an evaluation -/

/-- Inside an evaluation that `outer` others surround the counter is within the limit, and it is
`outer + 1` wherever nothing waits for another evaluation; each step moves it with the stack. An
evaluation that ends, or is refused, leaves the counter as it was. So the least sufficient limit is
one more than what the evaluations need that are begun, and chains of tail calls take up nothing. -/
theorem Evaluation.depth_kept (e : Evaluation) (outer room : Nat) :
    (∀ s, (e.start [] room).Reaches s → s.Counted outer (outer + 1 + room) ∧
      (s.context.stack = [] → s.depth (outer + 1 + room) = outer + 1) ∧
      ∀ next, s.step = .running next → State.Motion (outer + 1 + room) s next) ∧
    (∀ value after pending stack, Evaluates room e.form e.frame e.store value after →
      (Context.descend ⟨stack, room, e.store⟩ pending e.form e.frame).Reaches
        (Context.resumeStep ⟨stack, room, after⟩ pending value)) ∧
    (∀ limit : Nat, e.requiredDepth ≤ limit ↔ e.Fits limit) ∧
    e.requiredDepth = 1 + ⨆ (inner : Evaluation) (_ : e.Begins inner), inner.requiredDepth ∧
    ∀ later, Relation.ReflTransGen (TailCall room) e later →
      (e.start [] room).Reaches (later.start [] room) := by
  refine ⟨fun s reached => ?_, fun value after pending stack evaluates =>
    evaluates.resumes pending stack, fun limit => requiredDepth_le_iff, e.requiredDepth_eq,
    fun later calls => TailCall.reaches_chain calls []⟩
  have counted := (e.counted_start outer room).reaches reached
  refine ⟨counted, fun outermost => ?_, fun next stepped => State.motion_of_step counted stepped⟩
  rw [counted.level, outermost, List.length_nil]

end Lisp
