import Lisp.Proofs.Machine.Moves
import Lisp.Proofs.Machine.Steps
import Lisp.Proofs.Value.Closures

/-! Invariants of the evaluation machine. What the operations on the store keep in order, every step
of the machine keeps in order, and so does every run. -/

set_option autoImplicit false

namespace Lisp

/-- What is to be in order in a store, and which stores may come after it. The laws say that this is
so of new closures and after each operation that evaluation performs. -/
structure Discipline where
  store : Store → Prop
  frame : Store → FrameId → Prop
  closure : Store → Closure Value → Prop
  change : Store → Store → Prop
  refl : ∀ s, change s s
  trans : ∀ {s t u}, change s t → change t u → change s u
  laterFrame : ∀ {s t f}, change s t → frame s f → frame t f
  laterClosure : ∀ {s t c}, change s t → closure s c → closure t c
  home : ∀ {s c}, closure s c → frame s c.home
  lambda : ∀ {s f parameters names} (body : Value) (doc : Option String),
    parameterNames parameters = .ok names → frame s f → closure s ⟨names, body, f, doc⟩
  found : ∀ {s f name value}, store s → s.own? f name = some value →
    value.AllClosures (closure s)
  define : ∀ {s value} (f : FrameId) (name : String), store s → value.AllClosures (closure s) →
    store (s.define f name value) ∧ change s (s.define f name value)
  addAlias : ∀ {s} (f : FrameId) (synonym meaning : String), store s →
    store (s.addAlias f synonym meaning) ∧ change s (s.addAlias f synonym meaning)
  addChild : ∀ {s outer bindings}, store s → frame s outer → bindings.Ascending →
    (∀ entry ∈ bindings, entry.2.AllClosures (closure s)) →
    store (s.addChild outer bindings).2 ∧ change s (s.addChild outer bindings).2 ∧
      frame (s.addChild outer bindings).2 (s.addChild outer bindings).1
  writeOutput : ∀ {s} (f : FrameId) (text : String), store s →
    store (s.writeOutput f text).2 ∧ change s (s.writeOutput f text).2
  readLine : ∀ {s} (f : FrameId), store s →
    store (s.readLine f).2 ∧ change s (s.readLine f).2

namespace Discipline

variable (d : Discipline)

/-! ## States in order -/

def Admits (s : Store) (v : Value) : Prop :=
  v.AllClosures (d.closure s)

def AdmitsAll (s : Store) (vs : List Value) : Prop :=
  ∀ v ∈ vs, d.Admits s v

def AdmitsUse (s : Store) : Use → Prop
  | .answer => True
  | .expansion frame => d.frame s frame
  | .element callee done rest frame outer =>
    d.Admits s (.procedure callee) ∧ d.AdmitsAll s done ∧ d.AdmitsAll s rest ∧ d.frame s frame ∧
      AdmitsUse s outer

def AdmitsPending (s : Store) : Pending → Prop
  | .test consequent alternative frame =>
    d.Admits s consequent ∧ (∀ form ∈ alternative, d.Admits s form) ∧ d.frame s frame
  | .define _ frame => d.frame s frame
  | .assign _ frame => d.frame s frame
  | .sequence rest frame => d.AdmitsAll s rest ∧ d.frame s frame
  | .binding done _ rest body frame =>
    (∀ entry ∈ done, d.Admits s entry.2) ∧ d.AdmitsAll s rest ∧ d.AdmitsAll s body ∧ d.frame s frame
  | .evalText frame => d.frame s frame
  | .readText => True
  | .defineMacro _ frame => d.frame s frame
  | .result use => d.AdmitsUse s use
  | .operator _ operands frame => d.AdmitsAll s operands ∧ d.frame s frame
  | .operand procedure done rest frame =>
    d.Admits s (.procedure procedure) ∧ d.AdmitsAll s done ∧ d.AdmitsAll s rest ∧ d.frame s frame
  | .hole template _ done rest frame =>
    d.Admits s template ∧ d.AdmitsAll s done ∧ (∀ hole ∈ rest, d.Admits s hole.operand) ∧
      d.frame s frame

def AdmitsControl (s : Store) : Control → Prop
  | .eval form frame => d.Admits s form ∧ d.frame s frame
  | .call callee args frame use =>
    d.Admits s callee ∧ d.AdmitsAll s args ∧ d.frame s frame ∧ d.AdmitsUse s use
  | .yield use value => d.AdmitsUse s use ∧ d.Admits s value
  | .resume pending value => d.AdmitsPending s pending ∧ d.Admits s value
  | .refuse pending => d.AdmitsPending s pending
  | .finish value => d.Admits s value

structure Around (c : Context) : Prop where
  store : d.store c.store
  stack : ∀ pending ∈ c.stack, d.AdmitsPending c.store pending

structure Holds (s : State) : Prop where
  context : d.Around s.context
  control : d.AdmitsControl s.context.store s.control

/-- What comes next is in order, and the store has changed as it may. -/
structure Follows (c : Context) (next : State) : Prop where
  change : d.change c.store next.context.store
  holds : d.Holds next

variable {d} {s t : Store} {c : Context}

/-! ## Later stores -/

theorem Admits.later {v : Value} (change : d.change s t) (ordered : d.Admits s v) : d.Admits t v :=
  ordered.mono fun _ => d.laterClosure change

theorem AdmitsAll.later {vs : List Value} (change : d.change s t) (ordered : d.AdmitsAll s vs) :
    d.AdmitsAll t vs :=
  fun v mem => Admits.later change (ordered v mem)

theorem AdmitsUse.later {use : Use} (change : d.change s t) (ordered : d.AdmitsUse s use) : d.AdmitsUse t use := by
  induction use with
  | answer => exact True.intro
  | expansion frame => exact d.laterFrame change ordered
  | element callee done rest frame outer ih =>
      obtain ⟨called, before, after, present, around⟩ := ordered
      exact ⟨called.later change, before.later change, after.later change,
        d.laterFrame change present, ih around⟩

theorem AdmitsPending.later {pending : Pending} (change : d.change s t)
    (ordered : d.AdmitsPending s pending) : d.AdmitsPending t pending := by
  cases pending with
  | test consequent alternative frame =>
      obtain ⟨first, second, present⟩ := ordered
      exact ⟨first.later change, fun form mem => (second form mem).later change,
        d.laterFrame change present⟩
  | define name frame => exact d.laterFrame change ordered
  | assign name frame => exact d.laterFrame change ordered
  | sequence rest frame => exact ⟨ordered.1.later change, d.laterFrame change ordered.2⟩
  | binding done name rest body frame =>
      obtain ⟨before, after, inside, present⟩ := ordered
      exact ⟨fun entry mem => (before entry mem).later change, after.later change,
        inside.later change, d.laterFrame change present⟩
  | evalText frame => exact d.laterFrame change ordered
  | readText => exact True.intro
  | defineMacro name frame => exact d.laterFrame change ordered
  | result use => exact AdmitsUse.later change ordered
  | operator head operands frame => exact ⟨ordered.1.later change, d.laterFrame change ordered.2⟩
  | operand procedure done rest frame =>
      obtain ⟨called, before, after, present⟩ := ordered
      exact ⟨called.later change, before.later change, after.later change,
        d.laterFrame change present⟩
  | hole template kind done rest frame =>
      obtain ⟨shape, before, after, present⟩ := ordered
      exact ⟨shape.later change, before.later change,
        fun hole mem => (after hole mem).later change, d.laterFrame change present⟩

/-! ## Values -/

theorem admits_list {items : List Value} : d.Admits s (.list items) ↔ d.AdmitsAll s items :=
  Value.allClosures_list

theorem admits_closure {closure : Closure Value} {isMacro : Bool} :
    d.Admits s (.procedure ⟨.closure closure, isMacro⟩) ↔
      d.closure s closure ∧ d.Admits s closure.body :=
  Value.allClosures_closure

theorem admits_error (cause : EvalError) : d.Admits s (.error cause) :=
  Value.allClosures_error cause

theorem admits_nil : d.Admits s .nil :=
  Value.allClosures_nil

theorem admitsAll_nil : d.AdmitsAll s [] :=
  List.forall_mem_nil _

theorem admitsAll_cons {v : Value} {vs : List Value} :
    d.AdmitsAll s (v :: vs) ↔ d.Admits s v ∧ d.AdmitsAll s vs :=
  List.forall_mem_cons

theorem admitsAll_reverse {vs : List Value} (ordered : d.AdmitsAll s vs) : d.AdmitsAll s vs.reverse :=
  fun v mem => ordered v (List.mem_reverse.mp mem)

theorem admits_lookup {f : FrameId} {name : String} {v : Value} (ordered : d.store s)
    (bound : s.lookup? f name = some v) : d.Admits s v := by
  obtain ⟨g, -, own⟩ := List.exists_of_findSome?_eq_some bound
  exact d.found ordered own

theorem admitsAll_readAll {source : String} {forms : List Value}
    (read : readAll source = .ok forms) : d.AdmitsAll s forms :=
  allClosures_of_readAll read

/-! ## Single moves -/

theorem Follows.stay {control : Control} (around : d.Around c)
    (ordered : d.AdmitsControl c.store control) : d.Follows c ⟨control, c⟩ :=
  ⟨d.refl c.store, around, ordered⟩

theorem Around.later (around : d.Around c) (ordered : d.store t) (change : d.change c.store t) :
    d.Around ⟨c.stack, c.room, t⟩ :=
  ⟨ordered, fun pending mem => (around.stack pending mem).later change⟩

theorem Follows.move {control : Control} (around : d.Around c)
    (kept : d.store t ∧ d.change c.store t) (ordered : d.AdmitsControl t control) :
    d.Follows c ⟨control, ⟨c.stack, c.room, t⟩⟩ :=
  ⟨kept.2, around.later kept.1 kept.2, ordered⟩

theorem Follows.finish {v : Value} (around : d.Around c) (ordered : d.Admits c.store v) :
    d.Follows c (c.finish v) :=
  .stay around ordered

theorem Follows.fail (around : d.Around c) (cause : EvalError) : d.Follows c (c.fail cause) :=
  .stay around (admits_error cause)

theorem Follows.yield {use : Use} {v : Value} (around : d.Around c) (put : d.AdmitsUse c.store use)
    (ordered : d.Admits c.store v) : d.Follows c ⟨.yield use v, c⟩ :=
  .stay around ⟨put, ordered⟩

theorem Follows.yieldError {use : Use} (around : d.Around c) (put : d.AdmitsUse c.store use)
    (cause : EvalError) : d.Follows c ⟨.yield use (.error cause), c⟩ :=
  .yield around put (admits_error cause)

theorem Follows.eval {form : Value} {frame : FrameId} (around : d.Around c)
    (ordered : d.Admits c.store form) (present : d.frame c.store frame) :
    d.Follows c (c.eval form frame) :=
  .stay around ⟨ordered, present⟩

theorem Follows.descend {pending : Pending} {form : Value} {frame : FrameId} (around : d.Around c)
    (waits : d.AdmitsPending c.store pending) (ordered : d.Admits c.store form)
    (present : d.frame c.store frame) : d.Follows c (c.descend pending form frame) := by
  obtain ⟨stack, _ | room, store⟩ := c
  · exact .stay around waits
  · exact ⟨d.refl store, ⟨around.store, List.forall_mem_cons.mpr ⟨waits, around.stack⟩⟩,
      ordered, present⟩

theorem Follows.define {f : FrameId} {name : String} {v result : Value} (around : d.Around c)
    (ordered : d.Admits c.store v) (plain : ∀ s, d.Admits s result) :
    d.Follows c ((c.withStore (·.define f name v)).finish result) :=
  .move around (d.define f name around.store ordered) (plain _)

theorem Follows.trans {next after : State} (first : d.Follows c next)
    (second : d.Follows next.context after) : d.Follows c after :=
  ⟨d.trans first.change second.change, second.holds⟩

/-- What goes on in a new frame may use everything that was in order before there was the frame. -/
theorem Follows.enter {outer : FrameId} {bindings : Dict Value} {next : Context → FrameId → State}
    (around : d.Around c) (present : d.frame c.store outer) (ascending : bindings.Ascending)
    (bound : ∀ entry ∈ bindings, d.Admits c.store entry.2)
    (inside : ∀ {c' : Context} {inner : FrameId}, d.Around c' → d.change c.store c'.store →
      d.frame c'.store inner → d.Follows c' (next c' inner)) :
    d.Follows c (c.enter outer bindings next) := by
  obtain ⟨ordered, change, created⟩ := d.addChild around.store present ascending bound
  have entered := around.later ordered change
  exact ⟨d.trans change (inside entered change created).change,
    (inside entered change created).holds⟩

/-! ## Sequences, bindings and templates -/

theorem Follows.sequence {forms : List Value} {frame : FrameId} (around : d.Around c)
    (ordered : d.AdmitsAll c.store forms) (present : d.frame c.store frame) :
    d.Follows c (c.sequence forms frame) := by
  rcases forms with _ | ⟨form, _ | ⟨second, rest⟩⟩
  · exact .finish around admits_nil
  · exact .eval around (admitsAll_cons.mp ordered).1 present
  · obtain ⟨first, others⟩ := admitsAll_cons.mp ordered
    exact .descend around ⟨others, present⟩ first present

theorem Follows.bindNext {done : List (String × Value)} {rest body : List Value} {frame : FrameId}
    (around : d.Around c) (before : ∀ entry ∈ done, d.Admits c.store entry.2)
    (after : d.AdmitsAll c.store rest) (inside : d.AdmitsAll c.store body)
    (present : d.frame c.store frame) : d.Follows c (c.bindNext done rest body frame) := by
  rw [Context.bindNext.eq_def]
  split
  · refine .enter around present (Dict.ascending_ofList _) (fun entry mem => ?_)
      fun around change created => .sequence around (inside.later change) created
    exact before entry (List.mem_reverse.mp (Dict.mem_of_mem_ofList mem))
  · next target form rest =>
      obtain ⟨pair, others⟩ := admitsAll_cons.mp after
      have ordered : d.Admits c.store form :=
        admits_list.mp pair form (List.mem_cons_of_mem _ (List.mem_singleton_self _))
      split
      · exact .fail around _
      · exact .descend around ⟨before, others, inside, present⟩ ordered present
  · exact .fail around _

theorem Follows.fillNext {template : Value} {done : List Value} {rest : List Hole}
    {frame : FrameId} (around : d.Around c) (shape : d.Admits c.store template)
    (before : d.AdmitsAll c.store done) (after : ∀ hole ∈ rest, d.Admits c.store hole.operand)
    (present : d.frame c.store frame) : d.Follows c (c.fillNext template done rest frame) := by
  cases rest with
  | nil =>
      have filled := Template.partsClosures_fill template done.reverse shape (admitsAll_reverse before)
      exact .finish around filled.1
  | cons hole rest =>
      obtain ⟨first, others⟩ := List.forall_mem_cons.mp after
      exact .descend around ⟨shape, before, others, present⟩ first present

theorem Follows.evalText {frame : FrameId} (around : d.Around c) (text : String)
    (present : d.frame c.store frame) : d.Follows c (c.evalText text frame) := by
  rw [Context.evalText]
  cases read : readAll text with
  | error cause => exact .fail around _
  | ok forms =>
      refine .enter around present List.Pairwise.nil (List.forall_mem_nil _)
        fun {c'} _ around _ created => ?_
      have ordered : d.AdmitsAll c'.store forms := admitsAll_readAll read
      rcases forms with _ | ⟨form, _ | ⟨second, rest⟩⟩
      · exact .finish around admits_nil
      · exact .eval around (admitsAll_cons.mp ordered).1 created
      · have begun := admitsAll_cons.mpr ⟨Value.allClosures_symbol "begin", ordered⟩
        exact .eval around (admits_list.mpr begun) created

theorem Follows.readText (around : d.Around c) (text : String) : d.Follows c (c.readText text) := by
  rw [Context.readText]
  split
  · exact .fail around _
  · next form read => exact .finish around (allClosures_of_readFirst read)
  · exact .finish around admits_nil

/-! ## Calls -/

theorem Follows.nextElement {callee : Procedure Value} {done rest : List Value} {frame : FrameId}
    {use : Use} (around : d.Around c) (called : d.Admits c.store (.procedure callee))
    (before : d.AdmitsAll c.store done) (after : d.AdmitsAll c.store rest)
    (present : d.frame c.store frame) (put : d.AdmitsUse c.store use) :
    d.Follows c (c.nextElement callee done rest frame use) := by
  cases rest with
  | nil => exact .yield around put (admits_list.mpr (admitsAll_reverse before))
  | cons item rest =>
      obtain ⟨first, others⟩ := admitsAll_cons.mp after
      exact .stay around ⟨called, admitsAll_cons.mpr ⟨first, admitsAll_nil⟩, present,
        called, before, others, present, put⟩

theorem Follows.callNative {args : List Value} {frame : FrameId} {use : Use} (around : d.Around c)
    (operation : Native) (ordered : d.AdmitsAll c.store args) (present : d.frame c.store frame)
    (put : d.AdmitsUse c.store use) : d.Follows c (c.callNative operation args frame use) := by
  have replied := Native.allClosures_reply operation ordered
  rw [Context.callNative]
  cases reply : operation.reply args with
  | value v =>
      rw [reply] at replied
      exact .yield around put replied
  | write text =>
      have kept := d.writeOutput frame text around.store
      rcases written : c.store.writeOutput frame text with ⟨_ | failure, after⟩
      · rw [written] at kept
        simp only [written]
        exact .move around kept ⟨AdmitsUse.later kept.2 put, admits_nil⟩
      · rw [written] at kept
        simp only [written]
        exact .move around kept ⟨AdmitsUse.later kept.2 put, admits_error _⟩
  | readLine =>
      have kept := d.readLine frame around.store
      rcases taken : c.store.readLine frame with ⟨failure | _ | line, after⟩
      · rw [taken] at kept
        dsimp only
        exact .move around kept ⟨AdmitsUse.later kept.2 put, admits_error _⟩
      · rw [taken] at kept
        dsimp only
        exact .move around kept ⟨AdmitsUse.later kept.2 put, admits_nil⟩
      · rw [taken] at kept
        dsimp only
        exact .move around kept ⟨AdmitsUse.later kept.2 put, Value.allClosures_string line⟩
  | call callee args =>
      rw [reply] at replied
      exact .stay around ⟨replied.1, replied.2, present, put⟩
  | each callee items =>
      rw [reply] at replied
      exact .nextElement around replied.1 admitsAll_nil replied.2 present put

theorem Follows.enterBody {p : Procedure Value} {closure : Closure Value} {args : List Value}
    {bindings : Dict Value} {next : Context → FrameId → State} (around : d.Around c)
    (made : d.closure c.store closure) (ordered : d.AdmitsAll c.store args)
    (bound : bindArguments p closure args = .ok bindings)
    (inside : ∀ {c' : Context} {inner : FrameId}, d.Around c' → d.change c.store c'.store →
      d.frame c'.store inner → d.Follows c' (next c' inner)) :
    d.Follows c (c.enter closure.home bindings next) := by
  obtain rfl := bindArguments_ok bound
  exact .enter around (d.home made) (ascending_parameterBindings _ _)
    (allClosures_parameterBindings ordered) inside

theorem Follows.callProcedure {p : Procedure Value} {args : List Value} {frame : FrameId}
    {use : Use} (around : d.Around c) (called : d.Admits c.store (.procedure p))
    (ordered : d.AdmitsAll c.store args) (present : d.frame c.store frame)
    (put : d.AdmitsUse c.store use) : d.Follows c (c.callProcedure p args frame use) := by
  obtain ⟨operation | closure, isMacro⟩ := p
  · exact .callNative around operation ordered present put
  · obtain ⟨made, body⟩ := admits_closure.mp called
    simp only [Context.callProcedure]
    split
    · exact .yieldError around put _
    · next bindings bound =>
        refine .enterBody around made ordered bound fun around change created => ?_
        exact .descend around (AdmitsUse.later change put) (body.later change) created

theorem Follows.call {callee : Value} {args : List Value} {frame : FrameId} {use : Use}
    (around : d.Around c) (called : d.Admits c.store callee) (ordered : d.AdmitsAll c.store args)
    (present : d.frame c.store frame) (put : d.AdmitsUse c.store use) :
    d.Follows c (c.call callee args frame use) := by
  cases callee with
  | procedure p => exact .callProcedure around called ordered present put
  | _ => exact .yieldError around put _

theorem Follows.apply {p : Procedure Value} {args : List Value} {frame : FrameId}
    (around : d.Around c) (called : d.Admits c.store (.procedure p))
    (ordered : d.AdmitsAll c.store args) (present : d.frame c.store frame) :
    d.Follows c (c.apply p args frame) := by
  obtain ⟨operation | closure, isMacro⟩ := p
  · exact .callNative around operation ordered present True.intro
  · obtain ⟨made, body⟩ := admits_closure.mp called
    simp only [Context.apply]
    split
    · exact .fail around _
    · next bindings bound =>
        refine .enterBody around made ordered bound fun around change created => ?_
        exact .eval around (body.later change) created

theorem Follows.applyNext {p : Procedure Value} {done rest : List Value} {frame : FrameId}
    (around : d.Around c) (called : d.Admits c.store (.procedure p))
    (before : d.AdmitsAll c.store done) (after : d.AdmitsAll c.store rest)
    (present : d.frame c.store frame) : d.Follows c (c.applyNext p done rest frame) := by
  cases rest with
  | nil => exact .apply around called (admitsAll_reverse before) present
  | cons form rest =>
      obtain ⟨first, others⟩ := admitsAll_cons.mp after
      exact .descend around ⟨called, before, others, present⟩ first present

/-! ## Special forms -/

theorem Follows.evalFor {target form : Value} {frame : FrameId} {pending : String → Pending}
    (around : d.Around c) (keyword : Keyword) (ordered : d.Admits c.store form)
    (present : d.frame c.store frame) (waits : ∀ name, d.AdmitsPending c.store (pending name)) :
    d.Follows c (c.evalFor keyword target form frame pending) := by
  rw [Context.evalFor]
  split
  · exact .fail around _
  · exact .descend around (waits _) ordered present

theorem Follows.makeClosure {body : Value} {frame : FrameId} (around : d.Around c)
    (parameters : Value) (doc : Option String) (ordered : d.Admits c.store body)
    (present : d.frame c.store frame) : d.Follows c (c.makeClosure parameters doc body frame) := by
  rw [Context.makeClosure]
  split
  · exact .fail around _
  · next names checked =>
      exact .finish around (admits_closure.mpr ⟨d.lambda body doc checked present, ordered⟩)

theorem bindAliases_kept (ordered : d.store s) (frame : FrameId) (args : List Value) :
    d.store (Context.bindAliases s frame args).2 ∧
      d.change s (Context.bindAliases s frame args).2 := by
  induction s, args using Context.bindAliases.induct frame with
  | case1 | case2 => simp_all only [Context.bindAliases]; exact ⟨trivial, d.refl _⟩
  | case3 store first second rest synonym meaning named named' value found ih =>
      obtain ⟨orderedBound, bound⟩ := d.define frame synonym ordered (admits_lookup ordered found)
      obtain ⟨orderedNoted, noted⟩ := d.addAlias frame synonym meaning orderedBound
      obtain ⟨orderedLast, others⟩ := ih orderedNoted
      simp only [Context.bindAliases, named, named', found]
      exact ⟨orderedLast, d.trans bound (d.trans noted others)⟩
  | case4 store first second rest synonym meaning named named' found ih =>
      simp only [Context.bindAliases, named, named', found]
      exact ih ordered
  | case5 args store shape =>
      rw [Context.bindAliases.eq_2 store frame args shape]
      exact ⟨ordered, d.refl store⟩

theorem Follows.bindAliases {frame : FrameId} (around : d.Around c) (args : List Value) :
    d.Follows c (c.special .synonym args frame) := by
  have kept := bindAliases_kept around.store frame args
  simp only [Context.special]
  split
  · exact .fail around _
  · rcases bound : Context.bindAliases c.store frame args with ⟨_ | cause, after⟩
    · rw [bound] at kept
      dsimp only
      exact .move around kept admits_nil
    · rw [bound] at kept
      dsimp only
      exact .move around kept (admits_error cause)

theorem macroCall?_admitted {frame : FrameId} {form : Value} {p : Procedure Value}
    {operands : List Value} (ordered : d.store s) (admitted : d.Admits s form)
    (found : Context.macroCall? s frame form = some (p, operands)) :
    d.Admits s (.procedure p) ∧ d.AdmitsAll s operands := by
  rw [Context.macroCall?.eq_def] at found
  split at found
  · split at found
    · next bound =>
        split at found
        · cases found
          exact ⟨admits_lookup ordered bound, (admitsAll_cons.mp (admits_list.mp admitted)).2⟩
        · cases found
    · cases found
  · cases found

theorem Follows.expandMacro {form : Value} {frame : FrameId} (around : d.Around c)
    (ordered : d.Admits c.store form) (present : d.frame c.store frame) :
    d.Follows c (c.special .expandMacro [form] frame) := by
  simp only [Context.special]
  split
  · next p operands found =>
      obtain ⟨called, args⟩ := macroCall?_admitted around.store ordered found
      exact .callProcedure around called args present True.intro
  · exact .finish around ordered

theorem Follows.special {args : List Value} {frame : FrameId} (around : d.Around c)
    (keyword : Keyword) (ordered : d.AdmitsAll c.store args) (present : d.frame c.store frame) :
    d.Follows c (c.special keyword args frame) := by
  cases keyword with
  | quote =>
      rcases args with _ | ⟨form, _ | ⟨second, rest⟩⟩
      · exact .fail around _
      · exact .finish around (admitsAll_cons.mp ordered).1
      · exact .fail around _
  | quasiquote =>
      rcases args with _ | ⟨form, _ | ⟨second, rest⟩⟩
      · exact .fail around _
      · have shape := (admitsAll_cons.mp ordered).1
        exact .fillNext around shape admitsAll_nil (Template.allClosures_holes form shape) present
      · exact .fail around _
  | conditional =>
      rcases args with _ | ⟨test, _ | ⟨consequent, _ | ⟨alternative, _ | ⟨fourth, rest⟩⟩⟩⟩
      · exact .fail around _
      · exact .fail around _
      · obtain ⟨tested, second, -⟩ := by simpa only [admitsAll_cons] using ordered
        exact .descend around ⟨second, nofun, present⟩ tested present
      · obtain ⟨tested, second, third, -⟩ := by simpa only [admitsAll_cons] using ordered
        refine .descend around ⟨second, ?_, present⟩ tested present
        rintro _ ⟨⟩
        exact third
      · exact .fail around _
  | define =>
      rcases args with _ | ⟨target, _ | ⟨form, rest⟩⟩
      · exact .fail around _
      · exact .fail around _
      · obtain ⟨-, second, -⟩ := by simpa only [admitsAll_cons] using ordered
        exact .evalFor around .define second present fun _ => present
  | assign =>
      rcases args with _ | ⟨target, _ | ⟨form, _ | ⟨outer, rest⟩⟩⟩
      · exact .fail around _
      · exact .fail around _
      · obtain ⟨-, second, -⟩ := by simpa only [admitsAll_cons] using ordered
        exact .evalFor around .assign second present fun _ => present
      · obtain ⟨-, second, -⟩ := by simpa only [admitsAll_cons] using ordered
        exact .evalFor around .assign second present fun _ => present
  | lambda =>
      rcases args with _ | ⟨parameters, _ | ⟨second, _ | ⟨body, _ | ⟨fourth, rest⟩⟩⟩⟩
      · exact .fail around _
      · exact .fail around _
      · obtain ⟨-, inside, -⟩ := by simpa only [admitsAll_cons] using ordered
        exact .makeClosure around parameters none inside present
      · obtain ⟨-, -, inside, -⟩ := by simpa only [admitsAll_cons] using ordered
        cases second with
        | string doc => exact .makeClosure around parameters (some doc) inside present
        | _ => exact .fail around _
      · exact .fail around _
  | begin => exact .sequence around ordered present
  | doBlock => exact .sequence around ordered present
  | letBlock =>
      rcases args with _ | ⟨first, body⟩
      · exact .fail around _
      · obtain ⟨bindings, inside⟩ := admitsAll_cons.mp ordered
        cases first with
        | list items =>
            exact .bindNext around (List.forall_mem_nil _) (admits_list.mp bindings) inside present
        | _ => exact .fail around _
  | evalText =>
      rcases args with _ | ⟨form, _ | ⟨second, rest⟩⟩
      · exact .fail around _
      · have first := (admitsAll_cons.mp ordered).1
        cases form with
        | string text => exact .evalText around text present
        | list items => exact .descend around present first present
        | symbol name => exact .descend around present first present
        | _ => exact .fail around _
      · cases form <;> exact .fail around _
  | readText =>
      rcases args with _ | ⟨form, _ | ⟨second, rest⟩⟩
      · exact .fail around _
      · exact .descend around True.intro (admitsAll_cons.mp ordered).1 present
      · exact .fail around _
  | defineMacro =>
      rcases args with _ | ⟨target, _ | ⟨form, rest⟩⟩
      · exact .fail around _
      · exact .fail around _
      · obtain ⟨-, second, -⟩ := by simpa only [admitsAll_cons] using ordered
        exact .evalFor around .defineMacro second present fun _ => present
  | expandMacro =>
      rcases args with _ | ⟨form, _ | ⟨second, rest⟩⟩
      · exact .fail around _
      · exact .expandMacro around (admitsAll_cons.mp ordered).1 present
      · exact .fail around _
  | synonym => exact .bindAliases around args

/-! ## Steps -/

theorem Follows.evalStep {form : Value} {frame : FrameId} (around : d.Around c)
    (ordered : d.Admits c.store form) (present : d.frame c.store frame) :
    d.Follows c (c.evalStep form frame) := by
  match form with
  | .symbol name =>
      refine .finish around ?_
      cases bound : c.store.lookup? frame name with
      | none => exact admits_nil
      | some v => exact admits_lookup around.store bound
  | .nil | .bool _ | .number _ | .string _ | .char _ | .error _ | .list [] | .hash _ _
  | .procedure _ => exact .finish around ordered
  | .list (head :: operands) =>
      obtain ⟨first, others⟩ := admitsAll_cons.mp (admits_list.mp ordered)
      simp only [Context.evalStep]
      split
      · exact .special around _ others present
      · exact .descend around ⟨others, present⟩ first present

theorem Follows.yieldStep {use : Use} {v : Value} (around : d.Around c)
    (put : d.AdmitsUse c.store use) (ordered : d.Admits c.store v) :
    d.Follows c (c.yieldStep use v) := by
  cases use with
  | answer => exact .finish around ordered
  | expansion frame =>
      simp only [Context.yieldStep]
      split
      · exact .finish around ordered
      · exact .eval around ordered put
  | element callee done rest frame outer =>
      obtain ⟨called, before, after, present, outside⟩ := put
      simp only [Context.yieldStep]
      split
      · exact .yield around outside ordered
      · exact .nextElement around called (admitsAll_cons.mpr ⟨ordered, before⟩) after present outside

theorem Follows.resumeStep {pending : Pending} {v : Value} (around : d.Around c)
    (waits : d.AdmitsPending c.store pending) (ordered : d.Admits c.store v) :
    d.Follows c (c.resumeStep pending v) := by
  cases pending with
  | test consequent alternative frame =>
      obtain ⟨second, third, present⟩ := waits
      simp only [Context.resumeStep]
      split
      · exact .finish around ordered
      · split
        · exact .eval around second present
        · cases alternative with
          | some form => exact .eval around (third form rfl) present
          | none => exact .finish around admits_nil
  | define name frame => exact .define around ordered fun _ => admits_nil
  | assign name frame =>
      simp only [Context.resumeStep]
      split
      · next target _ => exact .define around ordered fun _ => admits_nil
      · exact .fail around _
  | sequence rest frame => exact .sequence around waits.1 waits.2
  | binding done name rest body frame =>
      obtain ⟨before, after, inside, present⟩ := waits
      exact .bindNext around (List.forall_mem_cons.mpr ⟨ordered, before⟩) after inside present
  | evalText frame =>
      simp only [Context.resumeStep]
      split
      · exact .finish around ordered
      · exact .evalText around _ waits
  | readText =>
      simp only [Context.resumeStep]
      split
      · exact .finish around ordered
      · exact .readText around _
  | defineMacro name frame =>
      simp only [Context.resumeStep]
      split
      · next closure isMacro =>
          exact .define around (admits_closure.mpr (admits_closure.mp ordered)) fun _ => admits_nil
      · exact .fail around _
      · exact .fail around _
  | result use => exact .yield around waits ordered
  | operator head operands frame =>
      obtain ⟨others, present⟩ := waits
      simp only [Context.resumeStep]
      split
      · split
        · exact .callProcedure around ordered others present present
        · exact .applyNext around ordered admitsAll_nil others present
      · exact .fail around _
      · exact .fail around _
  | operand p done rest frame =>
      obtain ⟨called, before, after, present⟩ := waits
      exact .applyNext around called (admitsAll_cons.mpr ⟨ordered, before⟩) after present
  | hole template kind done rest frame =>
      obtain ⟨shape, before, after, present⟩ := waits
      have filled := Follows.fillNext around shape (admitsAll_cons.mpr ⟨ordered, before⟩) after present
      cases kind with
      | value => exact filled
      | splice =>
          simp only [Context.resumeStep]
          split
          · exact filled
          · exact .fail around _
          · exact .fail around _

theorem Holds.step {s next : State} (holds : d.Holds s) (stepped : s.step = .running next) :
    d.Follows s.context next := by
  obtain ⟨control, context⟩ := s
  obtain ⟨around, ordered⟩ := holds
  cases control with
  | eval form frame =>
      cases stepped
      exact .evalStep around ordered.1 ordered.2
  | call callee args frame use =>
      obtain ⟨called, arguments, present, put⟩ := ordered
      cases stepped
      exact .call around called arguments present put
  | yield use v =>
      cases stepped
      exact .yieldStep around ordered.1 ordered.2
  | resume pending v =>
      cases stepped
      exact .resumeStep around ordered.1 ordered.2
  | refuse pending =>
      cases stepped
      exact .resumeStep around ordered (admits_error _)
  | finish v =>
      obtain ⟨_ | ⟨pending, stack⟩, room, store⟩ := context
      · cases stepped
      · cases stepped
        obtain ⟨waits, others⟩ := List.forall_mem_cons.mp around.stack
        exact ⟨d.refl store, ⟨around.store, others⟩, waits, ordered⟩

/-! ## Runs -/

theorem Holds.reaches {start finish : State} (holds : d.Holds start)
    (reached : start.Reaches finish) : d.Follows start.context finish := by
  induction reached using State.Reaches.head_induction with
  | refl => exact ⟨d.refl _, holds⟩
  | step stepped _ ih =>
      have first := holds.step stepped
      exact first.trans (ih first.holds)

theorem holds_eval {form : Value} {frame : FrameId} (ordered : d.store s)
    (admitted : d.Admits s form) (present : d.frame s frame) (room : Nat) :
    d.Holds ⟨.eval form frame, ⟨[], room, s⟩⟩ :=
  ⟨⟨ordered, List.forall_mem_nil _⟩, admitted, present⟩

theorem holds_call {callee : Value} {args : List Value} {frame : FrameId} (ordered : d.store s)
    (called : d.Admits s callee) (arguments : d.AdmitsAll s args) (present : d.frame s frame)
    (room : Nat) : d.Holds ⟨.call callee args frame .answer, ⟨[], room, s⟩⟩ :=
  ⟨⟨ordered, List.forall_mem_nil _⟩, called, arguments, present, True.intro⟩

end Discipline

end Lisp
