import Lisp.Proofs.Direct.Refinement

/-! What every operation on the store respects, every evaluation respects. The relation may depend
on the frame in which the work is done; work in a frame of its own counts for the frame from which
it was entered. -/

set_option autoImplicit false

namespace Lisp.Direct

/-- A relation between the stores before and after work in a frame that is kept by each operation
which evaluation in that frame performs, and by work in frames that it creates. -/
structure Respected (relation : FrameId → Store → Store → Prop) : Prop where
  refl : ∀ frame store, relation frame store store
  trans : ∀ {frame before middle after}, relation frame before middle →
    relation frame middle after → relation frame before after
  define : ∀ frame store name value, relation frame store (store.define frame name value)
  assign : ∀ {frame store name target} (value : Value), store.assignee? frame name = some target →
    relation frame store (store.define target name value)
  addAlias : ∀ frame store synonym meaning,
    relation frame store (store.addAlias frame synonym meaning)
  writeOutput : ∀ frame store text, relation frame store (store.writeOutput frame text).2
  readLine : ∀ frame store, relation frame store (store.readLine frame).2
  leave : ∀ {frame store outer bindings after},
    relation (store.addChild outer bindings).1 (store.addChild outer bindings).2 after →
      relation frame store after

/-- Every end of the computation is related to its start. -/
def Keeps {α : Type} (relation : Store → Store → Prop) (computation : Run α) : Prop :=
  ∀ before value after, computation before = some (value, after) → relation before after

/-- The recursive calls keep the relation of the frame in which they work. -/
structure RecursionKeeps (relation : FrameId → Store → Store → Prop) (recur : Recursion) :
    Prop where
  tail : ∀ form frame, Keeps (relation frame) (recur.tail form frame)
  nested : ∀ form frame, Keeps (relation frame) (recur.nested form frame)
  call : ∀ callee args frame, Keeps (relation frame) (recur.call callee args frame)

namespace Respected

variable {relation : FrameId → Store → Store → Prop} {α β : Type}

theorem pure (respected : Respected relation) (frame : FrameId) (value : α) :
    Keeps (relation frame) (Pure.pure value : Run α) := by
  intro before result after ended
  cases ended
  exact respected.refl frame before

theorem act {frame : FrameId} {operation : Store → α × Store}
    (kept : ∀ store, relation frame store (operation store).2) :
    Keeps (relation frame) (Direct.act operation) := by
  intro before value after ended
  have result : operation before = (value, after) := Option.some.inj ended
  have related := kept before
  rwa [result] at related

theorem bind (respected : Respected relation) {frame : FrameId} {first : Run α} {next : α → Run β}
    (left : Keeps (relation frame) first) (right : ∀ value, Keeps (relation frame) (next value)) :
    Keeps (relation frame) (first >>= next) := by
  intro before value after ended
  obtain ⟨result, middle, ran, finished⟩ := bind_eq_some ended
  exact respected.trans (left _ _ _ ran) (right result _ _ _ finished)

theorem enclosed (respected : Respected relation) {frame outer : FrameId} {bindings : Dict Value}
    {next : FrameId → Run α} (kept : ∀ inner, Keeps (relation inner) (next inner)) :
    Keeps (relation frame) (enclose outer bindings >>= next) := by
  intro before value after ended
  obtain ⟨inner, middle, entered, finished⟩ := bind_eq_some ended
  cases entered
  exact respected.leave (kept _ _ _ _ finished)

variable {recur : Recursion}

/-! ## Sequences, bindings and templates -/

theorem values (respected : Respected relation) (keeps : RecursionKeeps relation recur)
    (forms : List Value) (frame : FrameId) :
    Keeps (relation frame) (Direct.values recur forms frame) := by
  induction forms with
  | nil => exact respected.pure frame _
  | cons form rest ih =>
      exact respected.bind (keeps.nested form frame) fun _ =>
        respected.bind ih fun _ => respected.pure frame _

theorem sequence (respected : Respected relation) (keeps : RecursionKeeps relation recur)
    (forms : List Value) (frame : FrameId) :
    Keeps (relation frame) (Direct.sequence recur forms frame) := by
  induction forms with
  | nil => exact respected.pure frame _
  | cons form rest ih =>
      cases rest with
      | nil => exact keeps.tail form frame
      | cons second rest => exact respected.bind (keeps.nested form frame) fun _ => ih

theorem bindingValues (respected : Respected relation) (keeps : RecursionKeeps relation recur)
    (bindings : List Value) (frame : FrameId) :
    Keeps (relation frame) (Direct.bindingValues recur bindings frame) := by
  induction bindings with
  | nil => exact respected.pure frame _
  | cons binding rest ih =>
      by_cases pair : ∃ target form, binding = .list [target, form]
      · obtain ⟨target, form, rfl⟩ := pair
        rw [Direct.bindingValues]
        cases symbolName "let" target with
        | error cause => exact respected.pure frame _
        | ok name =>
            exact respected.bind (keeps.nested form frame) fun _ =>
              respected.bind ih fun _ => respected.pure frame _
      · rw [Direct.bindingValues.eq_3 recur frame binding rest
          fun target form shape => pair ⟨target, form, shape⟩]
        exact respected.pure frame _

theorem holeValues (respected : Respected relation) (keeps : RecursionKeeps relation recur)
    (holes : List Hole) (frame : FrameId) :
    Keeps (relation frame) (Direct.holeValues recur holes frame) := by
  induction holes with
  | nil => exact respected.pure frame _
  | cons hole rest ih =>
      refine respected.bind (keeps.nested hole.operand frame) fun value => ?_
      split
      · exact respected.pure frame _
      · exact respected.bind ih fun _ => respected.pure frame _

theorem template (respected : Respected relation) (keeps : RecursionKeeps relation recur)
    (form : Value) (frame : FrameId) :
    Keeps (relation frame) (Direct.template recur form frame) := by
  intro before value after ended
  rw [template_eq] at ended
  have kept := respected.bind (respected.holeValues keeps (Template.holes form) frame)
    fun values => respected.pure frame (filled form values)
  exact kept _ _ _ ended

/-! ## Calls -/

theorem mapItems (respected : Respected relation) (keeps : RecursionKeeps relation recur)
    (callee : Procedure Value) (items : List Value) (frame : FrameId) :
    Keeps (relation frame) (Direct.mapItems recur callee items frame) := by
  induction items with
  | nil => exact respected.pure frame _
  | cons item rest ih =>
      refine respected.bind (keeps.call (.procedure callee) [item] frame) fun value => ?_
      split
      · exact respected.pure frame _
      · exact respected.bind ih fun _ => respected.pure frame _

theorem native (respected : Respected relation) (keeps : RecursionKeeps relation recur)
    (operation : Native) (args : List Value) (frame : FrameId) :
    Keeps (relation frame) (Direct.native recur operation args frame) := by
  rw [Direct.native]
  cases operation.reply args with
  | value result => exact respected.pure frame _
  | write text =>
      refine act fun store => ?_
      have related := respected.writeOutput frame store text
      split <;> simp_all only
  | readLine =>
      refine act fun store => ?_
      have related := respected.readLine frame store
      split <;> simp_all only
  | call callee args => exact keeps.call callee args frame
  | each callee items =>
      refine respected.bind (respected.mapItems keeps callee items frame) fun results => ?_
      cases results <;> exact respected.pure frame _

theorem enter (respected : Respected relation) (keeps : RecursionKeeps relation recur)
    {body : Value → FrameId → Run Value}
    (inside : ∀ form frame, Keeps (relation frame) (body form frame)) (p : Procedure Value)
    (args : List Value) (frame : FrameId) :
    Keeps (relation frame) (Direct.enter recur body p args frame) := by
  rw [Direct.enter]
  cases p.callable with
  | native operation => exact respected.native keeps operation args frame
  | closure closure =>
      dsimp only
      cases bindArguments p closure args with
      | error cause => exact respected.pure frame _
      | ok bindings => exact respected.enclosed fun inner => inside closure.body inner

theorem call (respected : Respected relation) (keeps : RecursionKeeps relation recur)
    (callee : Value) (args : List Value) (frame : FrameId) :
    Keeps (relation frame) (Direct.call recur callee args frame) := by
  cases callee with
  | procedure p => exact respected.enter keeps keeps.nested p args frame
  | _ => exact respected.pure frame _

theorem application (respected : Respected relation) (keeps : RecursionKeeps relation recur)
    (head : Value) (operands : List Value) (frame : FrameId) :
    Keeps (relation frame) (Direct.application recur head operands frame) := by
  refine respected.bind (keeps.nested head frame) fun value => ?_
  cases value with
  | procedure p =>
      dsimp only
      split
      · refine respected.bind (respected.enter keeps keeps.nested p operands frame) fun _ => ?_
        split
        · exact respected.pure frame _
        · exact keeps.tail _ frame
      · exact respected.bind (respected.values keeps operands frame) fun args =>
          respected.enter keeps keeps.tail p args frame
  | _ => exact respected.pure frame _

/-! ## Special forms -/

theorem evalFor (respected : Respected relation) (keeps : RecursionKeeps relation recur)
    (keyword : Keyword) (target form : Value) (frame : FrameId)
    {next : String → Value → Run Value}
    (kept : ∀ name value, Keeps (relation frame) (next name value)) :
    Keeps (relation frame) (Direct.evalFor recur keyword target form frame next) := by
  rw [Direct.evalFor]
  cases symbolName keyword.name target with
  | error cause => exact respected.pure frame _
  | ok name => exact respected.bind (keeps.nested form frame) fun value => kept name value

theorem defineName (respected : Respected relation) (frame : FrameId) (name : String)
    (value : Value) : Keeps (relation frame) (Direct.define frame name value) :=
  act fun store => respected.define frame store name value

theorem assignOuter (respected : Respected relation) (frame : FrameId) (name : String)
    (value : Value) : Keeps (relation frame) (Direct.assignOuter frame name value) := by
  refine act fun store => ?_
  cases found : store.assignee? frame name with
  | some target => exact respected.assign value found
  | none => exact respected.refl frame store

theorem makeClosure (respected : Respected relation) (parameters : Value) (doc : Option String)
    (body : Value) (frame : FrameId) :
    Keeps (relation frame) (Direct.makeClosure parameters doc body frame) := by
  rw [Direct.makeClosure]
  cases parameterNames parameters <;> exact respected.pure frame _

theorem defineMacro (respected : Respected relation) (frame : FrameId) (name : String)
    (value : Value) : Keeps (relation frame) (Direct.defineMacro frame name value) := by
  rw [Direct.defineMacro.eq_def]
  split
  · exact respected.defineName frame name _
  · exact respected.pure frame _
  · exact respected.pure frame _

theorem evalText (respected : Respected relation) (keeps : RecursionKeeps relation recur)
    (text : String) (frame : FrameId) :
    Keeps (relation frame) (Direct.evalText recur text frame) := by
  rw [Direct.evalText]
  cases readAll text with
  | error cause => exact respected.pure frame _
  | ok forms =>
      refine respected.enclosed fun inner => ?_
      split
      · exact respected.pure inner _
      · exact keeps.tail _ inner
      · exact keeps.tail _ inner

theorem readText (respected : Respected relation) (text : String) (frame : FrameId) :
    Keeps (relation frame) (Direct.readText text) := by
  rw [Direct.readText]
  rcases readFirst text with cause | form | form <;> exact respected.pure frame _

theorem textOf (respected : Respected relation) (keeps : RecursionKeeps relation recur)
    (form : Value) (frame : FrameId) {use : String → Run Value}
    (kept : ∀ text, Keeps (relation frame) (use text)) :
    Keeps (relation frame) (Direct.textOf recur form frame use) := by
  refine respected.bind (keeps.nested form frame) fun value => ?_
  split
  · exact respected.pure frame _
  · exact kept _

theorem conditional (respected : Respected relation) (keeps : RecursionKeeps relation recur)
    (test consequent : Value) (alternative : Option Value) (frame : FrameId) :
    Keeps (relation frame) (Direct.conditional recur test consequent alternative frame) := by
  refine respected.bind (keeps.nested test frame) fun value => ?_
  split
  · exact respected.pure frame _
  · split
    · exact keeps.tail consequent frame
    · cases alternative with
      | some form => exact keeps.tail form frame
      | none => exact respected.pure frame _

theorem letBlock (respected : Respected relation) (keeps : RecursionKeeps relation recur)
    (bindings body : List Value) (frame : FrameId) :
    Keeps (relation frame) (Direct.letBlock recur bindings body frame) := by
  refine respected.bind (respected.bindingValues keeps bindings frame) fun pairs => ?_
  cases pairs with
  | error cause => exact respected.pure frame _
  | ok pairs => exact respected.enclosed fun inner => respected.sequence keeps body inner

theorem quasiquote (respected : Respected relation) (keeps : RecursionKeeps relation recur)
    (form : Value) (frame : FrameId) :
    Keeps (relation frame) (Direct.quasiquote recur form frame) := by
  refine respected.bind (respected.template keeps form frame) fun copy => ?_
  cases copy <;> exact respected.pure frame _

theorem expandMacro (respected : Respected relation) (keeps : RecursionKeeps relation recur)
    (form : Value) (frame : FrameId) :
    Keeps (relation frame) (Direct.expandMacro recur form frame) := by
  have looked : Keeps (relation frame)
      (Direct.act fun store => (Context.macroCall? store frame form, store)) :=
    act fun store => respected.refl frame store
  refine respected.bind looked fun found => ?_
  cases found with
  | some found => exact respected.enter keeps keeps.nested found.1 found.2 frame
  | none => exact respected.pure frame _

/-- Each alias is a definition and a record. -/
private theorem aliases_bound (respected : Respected relation) (frame : FrameId)
    (args : List Value) (store : Store) :
    relation frame store (Context.bindAliases store frame args).2 := by
  induction store, args using Context.bindAliases.induct frame with
  | case1 | case2 => simp_all only [Context.bindAliases]; exact respected.refl frame _
  | case3 store first second rest synonym meaning _ _ value found ih =>
      simp_all only [Context.bindAliases]
      exact respected.trans (respected.define frame store synonym value)
        (respected.trans (respected.addAlias frame _ synonym meaning) ih)
  | case4 store first second rest synonym _ meaning _ found ih =>
      simp_all only [Context.bindAliases]
  | case5 args store shape =>
      rw [Context.bindAliases.eq_2 store frame args shape]
      exact respected.refl frame store

theorem bindAliases (respected : Respected relation) (args : List Value) (frame : FrameId) :
    Keeps (relation frame) (Direct.bindAliases args frame) := by
  refine act fun store => ?_
  have related := respected.aliases_bound frame args store
  split <;> simp_all only

theorem special (respected : Respected relation) (keeps : RecursionKeeps relation recur)
    (keyword : Keyword) (args : List Value) (frame : FrameId) :
    Keeps (relation frame) (Direct.special recur keyword args frame) := by
  cases keyword with
  | quote => rcases args with _ | ⟨form, _ | ⟨second, rest⟩⟩ <;> exact respected.pure frame _
  | quasiquote =>
      rcases args with _ | ⟨form, _ | ⟨second, rest⟩⟩
      · exact respected.pure frame _
      · exact respected.quasiquote keeps form frame
      · exact respected.pure frame _
  | conditional =>
      rcases args with _ | ⟨test, _ | ⟨consequent, _ | ⟨alternative, _ | ⟨fourth, rest⟩⟩⟩⟩
      · exact respected.pure frame _
      · exact respected.pure frame _
      · exact respected.conditional keeps test consequent none frame
      · exact respected.conditional keeps test consequent (some alternative) frame
      · exact respected.pure frame _
  | define =>
      rcases args with _ | ⟨target, _ | ⟨form, rest⟩⟩
      · exact respected.pure frame _
      · exact respected.pure frame _
      · exact respected.evalFor keeps .define target form frame (respected.defineName frame)
  | assign =>
      rcases args with _ | ⟨target, _ | ⟨form, _ | ⟨outer, rest⟩⟩⟩
      · exact respected.pure frame _
      · exact respected.pure frame _
      · exact respected.evalFor keeps .assign target form frame (respected.defineName frame)
      · exact respected.evalFor keeps .assign target form frame (respected.assignOuter frame)
  | lambda =>
      rcases args with _ | ⟨parameters, _ | ⟨second, _ | ⟨body, _ | ⟨fourth, rest⟩⟩⟩⟩
      · exact respected.pure frame _
      · exact respected.pure frame _
      · exact respected.makeClosure parameters none second frame
      · cases second with
        | string doc => exact respected.makeClosure parameters (some doc) body frame
        | _ => exact respected.pure frame _
      · exact respected.pure frame _
  | begin => exact respected.sequence keeps args frame
  | doBlock => exact respected.sequence keeps args frame
  | letBlock =>
      rcases args with _ | ⟨first, body⟩
      · exact respected.pure frame _
      · cases first with
        | list bindings => exact respected.letBlock keeps bindings body frame
        | _ => exact respected.pure frame _
  | evalText =>
      rcases args with _ | ⟨form, _ | ⟨second, rest⟩⟩
      · exact respected.pure frame _
      · cases form with
        | string text => exact respected.evalText keeps text frame
        | list items =>
            exact respected.textOf keeps _ frame fun text => respected.evalText keeps text frame
        | symbol name =>
            exact respected.textOf keeps _ frame fun text => respected.evalText keeps text frame
        | _ => exact respected.pure frame _
      · cases form <;> exact respected.pure frame _
  | readText =>
      rcases args with _ | ⟨form, _ | ⟨second, rest⟩⟩
      · exact respected.pure frame _
      · exact respected.textOf keeps form frame fun text => respected.readText text frame
      · exact respected.pure frame _
  | defineMacro =>
      rcases args with _ | ⟨target, _ | ⟨form, rest⟩⟩
      · exact respected.pure frame _
      · exact respected.pure frame _
      · exact respected.evalFor keeps .defineMacro target form frame (respected.defineMacro frame)
  | expandMacro =>
      rcases args with _ | ⟨form, _ | ⟨second, rest⟩⟩
      · exact respected.pure frame _
      · exact respected.expandMacro keeps form frame
      · exact respected.pure frame _
  | synonym =>
      rw [Direct.special]
      split
      · exact respected.pure frame _
      · exact respected.bindAliases args frame

theorem eval (respected : Respected relation) (keeps : RecursionKeeps relation recur)
    (form : Value) (frame : FrameId) : Keeps (relation frame) (Direct.eval recur form frame) := by
  match form with
  | .symbol name => exact act fun store => respected.refl frame store
  | .nil | .bool _ | .number _ | .string _ | .char _ | .error _ | .list [] | .hash _ _
  | .procedure _ => exact respected.pure frame _
  | .list (head :: operands) =>
      rw [Direct.eval]
      cases head.symbol?.bind Keyword.ofName? with
      | some keyword => exact respected.special keeps keyword operands frame
      | none => exact respected.application keeps head operands frame

/-! ## Runs -/

theorem under (respected : Respected relation) {run : Limit → Request → Run Value} {limit : Limit}
    (kept : ∀ limit request, Keeps (relation request.frame) (run limit request)) :
    RecursionKeeps relation (.under run limit) where
  tail form frame := kept limit (.eval form frame)
  call callee args frame := kept limit (.call callee args frame)
  nested form frame := by
    match limit with
    | none => exact kept none (.eval form frame)
    | some 0 => exact respected.pure frame _
    | some (room + 1) => exact kept (some room) (.eval form frame)

/-- What each operation on the store respects, whole runs respect. -/
theorem run (respected : Respected relation) (fuel : Nat) (limit : Limit) (request : Request) :
    Keeps (relation request.frame) (Direct.run fuel limit request) := by
  -- By induction on the recursive calls within one another, under every limit at once.
  induction fuel generalizing limit request with
  | zero =>
      intro before value after ended
      cases ended
  | succ fuel ih =>
      have keeps : RecursionKeeps relation (.under (Direct.run fuel) limit) := respected.under ih
      cases request with
      | eval form frame => exact respected.eval keeps form frame
      | call callee args frame => exact respected.call keeps callee args frame

/-- What each operation on the store respects, every evaluation by the machine respects. -/
theorem evaluateWithin (respected : Respected relation) {budget fuel : Nat} {form value : Value}
    {frame : FrameId} {before after : Store}
    (ended : Lisp.evaluateWithin budget fuel form frame before = some (value, after)) :
    relation frame before after := by
  cases budget with
  | zero =>
      cases ended
      exact respected.refl frame before
  | succ room =>
      obtain ⟨steps, ran⟩ := (evaluateWithin_iff_run room form frame before _).mp ⟨fuel, ended⟩
      exact respected.run steps (some room) (.eval form frame) _ _ _ ran

end Respected

end Lisp.Direct
