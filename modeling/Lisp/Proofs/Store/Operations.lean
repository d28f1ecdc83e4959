import Lisp.Proofs.Machine.Discipline
import Lisp.Proofs.Machine.Lifting
import Lisp.Proofs.Store.Forest

/-! Every operation on a store and every evaluation keeps the frames a forest, with the frames that
are there enclosed as they are. -/

set_option autoImplicit false

namespace Lisp

variable {s t : Store}

theorem Store.Belongs.later {v : Value} (belongs : s.Belongs v) (keeps : s.KeepsFrames t) :
    t.Belongs v :=
  belongs.mono fun _ present => keeps.lt_size present

namespace Frame.InOrder

variable {f : FrameId} {frame : Frame}

/-- A frame stays in order while other frames change and new ones are added. -/
theorem later (ordered : frame.InOrder s f) (present : f < s.frames.size)
    (keeps : s.KeepsFrames t) : frame.InOrder t f where
  older := ordered.older
  shared {outer} link := by
    have presentOuter : outer < s.frames.size := (ordered.older link).trans present
    rw [keeps.consoleOf_eq presentOuter, ordered.shared link]
  bindings := ordered.bindings
  aliases := ordered.aliases
  values entry mem := (ordered.values entry mem).later keeps

theorem define (ordered : frame.InOrder s f) (name : String) {value : Value}
    (belongs : s.Belongs value) :
    Frame.InOrder s f { frame with bindings := frame.bindings.insert name value } where
  older := ordered.older
  shared := ordered.shared
  bindings := ordered.bindings.insert name value
  aliases := ordered.aliases
  values entry mem := by
    rcases Dict.mem_of_mem_insert mem with rfl | old
    · exact belongs
    · exact ordered.values entry old

theorem addAlias (ordered : frame.InOrder s f) (synonym meaning : String) :
    Frame.InOrder s f { frame with aliases := frame.aliases.insert synonym meaning } where
  older := ordered.older
  shared := ordered.shared
  bindings := ordered.bindings
  aliases := ordered.aliases.insert synonym meaning
  values := ordered.values

end Frame.InOrder

namespace Store

theorem addFrame_frame (s : Store) (frame : Frame) (g : FrameId) :
    (s.addFrame frame).2.frames[g]? = if g = s.frames.size then some frame else s.frames[g]? := by
  simp only [addFrame, Array.getElem?_push]

theorem KeepsFrames.addFrame (s : Store) (frame : Frame) :
    KeepsFrames s (s.addFrame frame).2 := by
  intro g old present
  have before : g ≠ s.frames.size := (Array.getElem?_eq_some_iff.mp present).1.ne
  rw [addFrame_frame, if_neg before]
  exact ⟨old, present, rfl, rfl⟩

namespace Forest

theorem empty : Forest empty := by
  intro f frame found
  simp [Store.empty] at found

theorem of_frames (forest : Forest s) (same : t.frames = s.frames) : Forest t := by
  intro f frame found
  rw [same] at found
  have present : f < s.frames.size := (Array.getElem?_eq_some_iff.mp found).1
  exact (forest f frame found).later present (.of_frames same)

theorem define (forest : Forest s) (f : FrameId) (name : String) {value : Value}
    (belongs : s.Belongs value) : Forest (s.define f name value) := by
  intro g frame found
  have keeps := KeepsFrames.define s f name value
  have present : g < s.frames.size := by
    have inside := (Array.getElem?_eq_some_iff.mp found).1
    simpa [Store.define] using inside
  rw [define_frame] at found
  split at found
  · obtain ⟨old, foundOld, rfl⟩ := Option.map_eq_some_iff.mp found
    exact ((forest g old foundOld).define name belongs).later present keeps
  · exact (forest g frame found).later present keeps

theorem addAlias (forest : Forest s) (f : FrameId) (synonym meaning : String) :
    Forest (s.addAlias f synonym meaning) := by
  intro g frame found
  have keeps := KeepsFrames.addAlias s f synonym meaning
  have present : g < s.frames.size := by
    have inside := (Array.getElem?_eq_some_iff.mp found).1
    simpa [Store.addAlias] using inside
  rw [addAlias_frame] at found
  split at found
  · obtain ⟨old, foundOld, rfl⟩ := Option.map_eq_some_iff.mp found
    exact ((forest g old foundOld).addAlias synonym meaning).later present keeps
  · exact (forest g frame found).later present keeps

theorem addFrame (forest : Forest s) {frame : Frame} (ordered : frame.InOrder s s.frames.size) :
    Forest (s.addFrame frame).2 := by
  intro g found foundFrame
  have keeps := KeepsFrames.addFrame s frame
  rw [addFrame_frame] at foundFrame
  split at foundFrame
  · next last =>
      subst last
      cases foundFrame
      refine ⟨ordered.older, fun {outer} link => ?_, ordered.bindings, ordered.aliases,
        fun entry mem => (ordered.values entry mem).later keeps⟩
      rw [keeps.consoleOf_eq (ordered.older link), ordered.shared link]
  · have present : g < s.frames.size := (Array.getElem?_eq_some_iff.mp foundFrame).1
    exact (forest g found foundFrame).later present keeps

theorem addChild (forest : Forest s) {outer : FrameId} {bindings : Dict Value}
    (present : outer < s.frames.size) (ascending : bindings.Ascending)
    (belong : ∀ entry ∈ bindings, s.Belongs entry.2) : Forest (s.addChild outer bindings).2 := by
  refine forest.addFrame ⟨?_, ?_, ascending, List.Pairwise.nil, belong⟩
  · rintro _ ⟨⟩
    exact present
  · rintro _ ⟨⟩
    rfl

theorem addGlobal (forest : Forest s) (console : ConsoleId) (withNatives : Bool) :
    Forest (s.addGlobal console withNatives).2 := by
  cases withNatives with
  | false => exact forest.addFrame ⟨nofun, nofun, List.Pairwise.nil, List.Pairwise.nil, nofun⟩
  | true =>
      refine forest.addFrame ⟨nofun, nofun, Dict.ascending_ofList _, List.Pairwise.nil, ?_⟩
      intro entry mem
      obtain ⟨native, -, rfl⟩ := List.mem_map.mp (Dict.mem_of_mem_ofList mem)
      exact Value.allClosures_native native false

theorem belongs_own? (forest : Forest s) {f : FrameId} {name : String} {value : Value}
    (found : s.own? f name = some value) : s.Belongs value := by
  rw [own?, bindingsOf] at found
  split at found
  · next frame present =>
      exact (forest f frame present).values _ (Dict.mem_of_get? found)
  · cases found

end Forest

/-! ## Evaluation -/

/-- Frames form a forest, and everything that evaluation has to do with is among them. -/
def forestDiscipline : Discipline where
  store := Forest
  frame s f := f < s.frames.size
  closure s c := c.home < s.frames.size
  change := KeepsFrames
  refl := KeepsFrames.refl
  trans := KeepsFrames.trans
  laterFrame keeps present := keeps.lt_size present
  laterClosure keeps present := keeps.lt_size present
  home present := present
  lambda _ _ _ present := present
  found forest bound := forest.belongs_own? bound
  define f name forest belongs := ⟨forest.define f name belongs, .define _ f name _⟩
  addAlias f synonym meaning forest :=
    ⟨forest.addAlias f synonym meaning, .addAlias _ f synonym meaning⟩
  addChild forest present ascending belong :=
    ⟨forest.addChild present ascending belong, .addChild _ _ _, by simp [addChild, addFrame]⟩
  writeOutput f text forest :=
    ⟨forest.of_frames (writeOutput_frames _ f text), .of_frames (writeOutput_frames _ f text)⟩
  readLine f forest := ⟨forest.of_frames rfl, .of_frames rfl⟩

theorem Forest.evaluating {form : Value} {frame : FrameId} {room : Nat} {state : State}
    (forest : Forest s) (belongs : s.Belongs form) (present : frame < s.frames.size)
    (reached : State.Reaches ⟨.eval form frame, ⟨[], room, s⟩⟩ state) :
    forestDiscipline.Follows ⟨[], room, s⟩ state :=
  (forestDiscipline.holds_eval forest belongs present room).reaches reached

/-! ## Operations -/

/-- The operations that a program around the evaluator has, on frames and values that there are. An
evaluation may be looked at when it has ended and at any time before. -/
inductive Operates (s : Store) : Store → Prop where
  | addGlobal (console : ConsoleId) (withNatives : Bool) :
      Operates s (s.addGlobal console withNatives).2
  | enclose {outer : FrameId} (present : outer < s.frames.size) :
      Operates s (s.addChild outer []).2
  | define (f : FrameId) (name : String) {value : Value} (belongs : s.Belongs value) :
      Operates s (s.define f name value)
  | assign {f : FrameId} {name : String} {value : Value} {t : Store} (belongs : s.Belongs value)
      (assigned : s.assign? f name value = some t) : Operates s t
  | addAlias (f : FrameId) (synonym meaning : String) :
      Operates s (s.addAlias f synonym meaning)
  | evaluate {form : Value} {frame : FrameId} {room : Nat} {state : State}
      (belongs : s.Belongs form) (present : frame < s.frames.size)
      (reached : State.Reaches ⟨.eval form frame, ⟨[], room, s⟩⟩ state) :
      Operates s state.context.store
  | call {callee : Value} {args : List Value} {frame : FrameId} {room : Nat} {state : State}
      (belongs : s.Belongs callee) (arguments : ∀ v ∈ args, s.Belongs v)
      (present : frame < s.frames.size)
      (reached : State.Reaches ⟨.call callee args frame .answer, ⟨[], room, s⟩⟩ state) :
      Operates s state.context.store
  | useStreams {t : Store} (same : t.frames = s.frames) : Operates s t

theorem Forest.operates (forest : Forest s) (operated : Operates s t) :
    Forest t ∧ KeepsFrames s t := by
  cases operated with
  | addGlobal console withNatives =>
      exact ⟨forest.addGlobal console withNatives, .addFrame s _⟩
  | enclose present =>
      exact ⟨forest.addChild present List.Pairwise.nil nofun, .addChild s _ _⟩
  | define f name belongs => exact ⟨forest.define f name belongs, .define s f name _⟩
  | @assign f name value _ belongs assigned =>
      obtain ⟨target, -, rfl⟩ := Option.map_eq_some_iff.mp assigned
      exact ⟨forest.define target name belongs, .define s target name value⟩
  | addAlias f synonym meaning =>
      exact ⟨forest.addAlias f synonym meaning, .addAlias s f synonym meaning⟩
  | evaluate belongs present reached =>
      have follows := forest.evaluating belongs present reached
      exact ⟨follows.holds.context.store, follows.change⟩
  | @call _ _ _ room _ belongs arguments present reached =>
      have start := forestDiscipline.holds_call forest belongs arguments present room
      have follows := start.reaches reached
      exact ⟨follows.holds.context.store, follows.change⟩
  | useStreams same => exact ⟨forest.of_frames same, .of_frames same⟩

/-- Some sequence of operations leads from one store to the other. -/
def OperatesOn : Store → Store → Prop :=
  Relation.ReflTransGen Operates

theorem Forest.operatesOn (forest : Forest s) (operated : OperatesOn s t) :
    Forest t ∧ KeepsFrames s t := by
  induction operated with
  | refl => exact ⟨forest, .refl s⟩
  | tail _ last ih =>
      obtain ⟨between, keeps⟩ := ih
      obtain ⟨final, keepsLast⟩ := between.operates last
      exact ⟨final, keeps.trans keepsLast⟩

/-- Whatever operations and evaluations led to a store: enclosing frames are older than those
enclosed and remain the same, walks outward end at a root without visiting a frame twice, all frames
with one root share its console, and all ways of looking at what is visible from a frame agree. -/
theorem operatesOn_forest (reached : OperatesOn empty s) :
    (∀ f g, s.outerOf f = some g → g < f) ∧
    (∀ t, OperatesOn s t → KeepsFrames s t) ∧
    ∀ f < s.frames.size, s.WalksOutward f ∧ s.ViewsAgree f := by
  have forest : Forest s := (Forest.empty.operatesOn reached).1
  refine ⟨fun f g => forest.older, fun t later => (forest.operatesOn later).2, fun f present => ?_⟩
  exact ⟨forest.walksOutward present, forest.viewsAgree present⟩

/-- A global frame that binds `x`, and a frame within it that has an alias for the name. -/
private def preparedStore : Store :=
  ⟨#[⟨none, [("x", .bool true)], [], 0⟩, ⟨some 0, [], [("w", "x")], 0⟩], #[], #[]⟩

private theorem operatesOn_preparedStore : OperatesOn empty preparedStore := by
  have global : OperatesOn empty _ := .single (.addGlobal 0 false)
  have bound := global.tail (.define 0 "x" (Value.allClosures_bool true))
  have nested := bound.tail (.enclose (show 0 < 1 by decide))
  exact nested.tail (.addAlias 1 "w" "x")

/-- Binds `y` to the value of `x` in a frame of its own, and gives `x` outside of it a closure at home
in that frame. -/
private def nestingForm : Value :=
  .list [.symbol "let", .list [.list [.symbol "y", .symbol "x"]],
    .list [.symbol "set!", .symbol "x",
      .list [.symbol "lambda", .list [.symbol "z"], .symbol "y"], .symbol "outer"]]

theorem operatesOn_forest_nested :
    ∃ s, OperatesOn empty s ∧ s.chain 2 = [2, 1, 0] ∧ s.lookup? 2 "y" = some (.bool true) ∧
      (s.visibleAliases 2).get? "w" = some "x" ∧ s.WalksOutward 2 ∧ s.ViewsAgree 2 := by
  have belongs : preparedStore.Belongs nestingForm := by simp [nestingForm, Belongs]
  have reached : State.Reaches ⟨.eval nestingForm 1, ⟨[], 9, preparedStore⟩⟩ _ := ⟨8, rfl⟩
  have evaluated := operatesOn_preparedStore.tail
    (.evaluate belongs (show 1 < 2 by decide) reached)
  exact ⟨_, evaluated, rfl, rfl, rfl, (operatesOn_forest evaluated).2.2 2 (by decide)⟩

end Store

end Lisp
