import Lisp.Proofs.Machine.Parameters
import Lisp.Proofs.Store.Operations

/-! Which parameter lists are accepted, and that no closure has another one, wherever it is. One marker
is meant to stand before one last name; a second marker in the place of that name is accepted too. -/

set_option autoImplicit false

namespace Lisp

/-! ## Accepted lists -/

/-- The marker occurs at most once, and just one name comes after it, which is not the marker. -/
def WellMarked (names : List String) : Prop :=
  names.count restMarker ≤ 1 ∧ ∀ before after, names = before ++ restMarker :: after →
    ∃ name, after = [name] ∧ name ≠ restMarker

/-- Two markers are the last two names, and the only ones. -/
def MarkedTwice (names : List String) : Prop :=
  ∃ fixed, restMarker ∉ fixed ∧ names = fixed ++ [restMarker, restMarker]

theorem wellMarked_of_notMem {names : List String} (unmarked : restMarker ∉ names) :
    WellMarked names := by
  refine ⟨by simp [List.count_eq_zero_of_not_mem unmarked], fun before after split => ?_⟩
  exact absurd (by simp [split]) unmarked

theorem wellMarked_append {fixed : List String} {name : String} (unmarked : restMarker ∉ fixed)
    (other : name ≠ restMarker) : WellMarked (fixed ++ [restMarker, name]) := by
  constructor
  · rw [List.count_append, List.count_eq_zero_of_not_mem unmarked, List.count_cons_self,
      List.count_singleton, if_neg (by simpa using other)]
  · intro before after split
    rcases List.append_eq_append_iff.mp split with ⟨extra, rfl, rest⟩ | ⟨extra, rfl, rest⟩
    · cases extra with
      | nil => exact ⟨name, (List.cons.inj rest).2.symm, other⟩
      | cons first extra =>
          -- The second marker would have to stand after the first, where only the name is.
          obtain ⟨-, tail⟩ := List.cons.inj rest
          have among : restMarker ∈ [name] := by simp [tail]
          exact absurd (List.mem_singleton.mp among).symm other
    · cases extra with
      | nil => exact ⟨name, (List.cons.inj rest).2, other⟩
      | cons first extra =>
          obtain ⟨rfl, -⟩ := List.cons.inj rest
          exact absurd (by simp) unmarked

theorem MarkedTwice.not_wellMarked {names : List String} (twice : MarkedTwice names) :
    ¬ WellMarked names := by
  obtain ⟨fixed, -, rfl⟩ := twice
  rintro ⟨once, -⟩
  simp [List.count_append] at once

theorem exists_parameterList_iff {names : List String} :
    (∃ fixed rest, ParameterList names fixed rest) ↔ WellMarked names ∨ MarkedTwice names := by
  constructor
  · rintro ⟨fixed, _, shape⟩
    cases shape with
    | fixed unmarked => exact .inl (wellMarked_of_notMem unmarked)
    | @variadic _ name unmarked =>
        by_cases marker : name = restMarker
        · exact .inr ⟨fixed, unmarked, by rw [marker]⟩
        · exact .inl (wellMarked_append unmarked marker)
  · rintro (⟨-, single⟩ | ⟨fixed, unmarked, rfl⟩)
    · by_cases marked : restMarker ∈ names
      · obtain ⟨front, back, rfl, unmarked⟩ := List.eq_append_cons_of_mem marked
        obtain ⟨name, rfl, -⟩ := single front back rfl
        exact ⟨front, some name, .variadic unmarked⟩
      · exact ⟨names, none, .fixed marked⟩
    · exact ⟨fixed, some restMarker, .variadic unmarked⟩

theorem ParameterList.parameterNames_eq {names fixed : List String} {rest : Option String}
    (shape : ParameterList names fixed rest) : parameterNames (.list (names.map .symbol)) = .ok names := by
  have single : ¬ (isVariadic names && (fixedParameters names).length + 2 ≠ names.length) = true := by
    rw [shape.isVariadic_eq, shape.fixedParameters_eq]
    cases shape with
    | fixed => nofun
    | variadic => simp
  rw [parameterNames, symbolNames_symbols]
  exact if_neg single

theorem parameterNames_eq_ok_iff {v : Value} {names : List String} :
    parameterNames v = .ok names ↔
      v = .list (names.map .symbol) ∧ (WellMarked names ∨ MarkedTwice names) := by
  rw [← exists_parameterList_iff]
  constructor
  · exact parameterList_of_parameterNames
  · rintro ⟨rfl, fixed, rest, shape⟩
    exact shape.parameterNames_eq

/-- What is accepted is what should be, apart from lists with two markers. -/
theorem parameterNames_eq_ok_iff_wellMarked {names : List String} :
    (parameterNames (.list (names.map .symbol)) = .ok names ↔ WellMarked names) ↔
      ¬ MarkedTwice names := by
  rw [parameterNames_eq_ok_iff]
  constructor
  · rintro accepted twice
    exact twice.not_wellMarked (accepted.mp ⟨rfl, .inr twice⟩)
  · intro once
    exact ⟨fun accepted => accepted.2.resolve_right once, fun marked => ⟨rfl, .inl marked⟩⟩

/-! ## Closures in a store -/

namespace Store

variable {p : Closure Value → Prop} {s t : Store}

/-- The closures in all values that are bound in some frame. -/
def AllClosures (p : Closure Value → Prop) (s : Store) : Prop :=
  ∀ (f : FrameId) (frame : Frame), s.frames[f]? = some frame →
    ∀ entry ∈ frame.bindings, entry.2.AllClosures p

namespace AllClosures

theorem of_frames (all : s.AllClosures p) (same : t.frames = s.frames) : t.AllClosures p := by
  rw [AllClosures, same]
  exact all

theorem own? (all : s.AllClosures p) {f : FrameId} {name : String} {v : Value}
    (found : s.own? f name = some v) : v.AllClosures p := by
  rw [Store.own?, bindingsOf] at found
  split at found
  · next frame present => exact all f frame present _ (Dict.mem_of_get? found)
  · cases found

theorem define (all : s.AllClosures p) (f : FrameId) (name : String) {v : Value}
    (value : v.AllClosures p) : (s.define f name v).AllClosures p := by
  intro g frame found entry mem
  rw [define_frame] at found
  split at found
  · obtain ⟨old, foundOld, rfl⟩ := Option.map_eq_some_iff.mp found
    rcases Dict.mem_of_mem_insert mem with rfl | before
    · exact value
    · exact all g old foundOld entry before
  · exact all g frame found entry mem

theorem addAlias (all : s.AllClosures p) (f : FrameId) (synonym meaning : String) :
    (s.addAlias f synonym meaning).AllClosures p := by
  intro g frame found entry mem
  rw [addAlias_frame] at found
  split at found
  · obtain ⟨old, foundOld, rfl⟩ := Option.map_eq_some_iff.mp found
    exact all g old foundOld entry mem
  · exact all g frame found entry mem

theorem addFrame (all : s.AllClosures p) {frame : Frame}
    (values : ∀ entry ∈ frame.bindings, entry.2.AllClosures p) :
    (s.addFrame frame).2.AllClosures p := by
  intro g found foundFrame entry mem
  rw [addFrame_frame] at foundFrame
  split at foundFrame
  · cases foundFrame
    exact values entry mem
  · exact all g found foundFrame entry mem

theorem addGlobal (all : s.AllClosures p) (console : ConsoleId) (withNatives : Bool) :
    (s.addGlobal console withNatives).2.AllClosures p := by
  refine all.addFrame fun entry mem => ?_
  cases withNatives with
  | false => cases mem
  | true =>
      obtain ⟨native, -, rfl⟩ := List.mem_map.mp (Dict.mem_of_mem_ofList mem)
      exact Value.allClosures_native native false

end AllClosures

end Store

/-- A closure has a parameter list of one of the accepted kinds. -/
def Closure.Marked (c : Closure Value) : Prop :=
  WellMarked c.parameters ∨ MarkedTwice c.parameters

/-- The closures of a state have accepted parameter lists. Only `lambda` makes new ones. -/
def parameterDiscipline : Discipline where
  store := Store.AllClosures Closure.Marked
  frame _ _ := True
  closure _ := Closure.Marked
  change _ _ := True
  refl _ := trivial
  trans _ _ := trivial
  laterFrame _ _ := trivial
  laterClosure _ marked := marked
  home _ := trivial
  lambda _ _ accepted _ := (parameterNames_eq_ok_iff.mp accepted).2
  found all bound := all.own? bound
  define f name all value := ⟨all.define f name value, trivial⟩
  addAlias f synonym meaning all := ⟨all.addAlias f synonym meaning, trivial⟩
  addChild all _ _ values := ⟨all.addFrame values, trivial, trivial⟩
  writeOutput f text all := ⟨all.of_frames (Store.writeOutput_frames _ f text), trivial⟩
  readLine _ all := ⟨all.of_frames rfl, trivial⟩

/-! ## Programs around the evaluator -/

/-- What a program around the evaluator has: a store, and the values that evaluations have given it. -/
structure Host where
  store : Store
  given : List Value

/-- The value that a state gives to the program around the evaluator. -/
def State.given : State → List Value
  | ⟨.finish v, _⟩ => [v]
  | _ => []

namespace Host

/-- The closure occurs in a value that is bound in some frame or has been given. -/
def Contains (h : Host) (c : Closure Value) : Prop :=
  (∃ (f : FrameId) (frame : Frame), h.store.frames[f]? = some frame ∧
      ∃ entry ∈ frame.bindings, c.OccursIn entry.2) ∨
    ∃ v ∈ h.given, c.OccursIn v

/-- The program has the value: the closures in it are there already. Data and forms that are read have
none in them. -/
def Offers (h : Host) (v : Value) : Prop :=
  v.AllClosures h.Contains

/-- The operations that the program has, on values that it has. An evaluation may be looked at when it
has ended and at any time before. -/
inductive Operates (h : Host) : Host → Prop where
  | addGlobal (console : ConsoleId) (withNatives : Bool) :
      Operates h ⟨(h.store.addGlobal console withNatives).2, h.given⟩
  | enclose (outer : FrameId) : Operates h ⟨(h.store.addChild outer []).2, h.given⟩
  | define (f : FrameId) (name : String) {v : Value} (offered : h.Offers v) :
      Operates h ⟨h.store.define f name v, h.given⟩
  | assign {f : FrameId} {name : String} {v : Value} {t : Store} (offered : h.Offers v)
      (assigned : h.store.assign? f name v = some t) : Operates h ⟨t, h.given⟩
  | addAlias (f : FrameId) (synonym meaning : String) :
      Operates h ⟨h.store.addAlias f synonym meaning, h.given⟩
  | evaluate {form : Value} {frame : FrameId} {room : Nat} {state : State} (offered : h.Offers form)
      (reached : State.Reaches ⟨.eval form frame, ⟨[], room, h.store⟩⟩ state) :
      Operates h ⟨state.context.store, state.given ++ h.given⟩
  | call {callee : Value} {args : List Value} {frame : FrameId} {room : Nat} {state : State}
      (offered : h.Offers callee) (arguments : ∀ v ∈ args, h.Offers v)
      (reached : State.Reaches ⟨.call callee args frame .answer, ⟨[], room, h.store⟩⟩ state) :
      Operates h ⟨state.context.store, state.given ++ h.given⟩
  | useStreams {t : Store} (same : t.frames = h.store.frames) : Operates h ⟨t, h.given⟩

/-- Some sequence of operations leads to what the program has, from nothing at all. -/
def Reachable (h : Host) : Prop :=
  Relation.ReflTransGen Operates ⟨.empty, []⟩ h

def Marked (h : Host) : Prop :=
  h.store.AllClosures Closure.Marked ∧ ∀ v ∈ h.given, v.AllClosures Closure.Marked

variable {h after : Host}

theorem Marked.contains (marked : h.Marked) {c : Closure Value} (present : h.Contains c) :
    c.Marked := by
  rcases present with ⟨f, frame, found, entry, mem, within⟩ | ⟨v, mem, within⟩
  · exact marked.1 f frame found entry mem c within
  · exact marked.2 v mem c within

theorem Marked.offers (marked : h.Marked) {v : Value} (offered : h.Offers v) :
    v.AllClosures Closure.Marked :=
  offered.mono fun _ => marked.contains

theorem Marked.evaluating (marked : h.Marked) {form : Value} {frame : FrameId} {room : Nat}
    {state : State} (offered : h.Offers form)
    (reached : State.Reaches ⟨.eval form frame, ⟨[], room, h.store⟩⟩ state) :
    parameterDiscipline.Holds state :=
  ((parameterDiscipline.holds_eval marked.1 (marked.offers offered) trivial room).reaches
    reached).holds

theorem Marked.calling (marked : h.Marked) {callee : Value} {args : List Value} {frame : FrameId}
    {room : Nat} {state : State} (offered : h.Offers callee) (arguments : ∀ v ∈ args, h.Offers v)
    (reached : State.Reaches ⟨.call callee args frame .answer, ⟨[], room, h.store⟩⟩ state) :
    parameterDiscipline.Holds state :=
  ((parameterDiscipline.holds_call marked.1 (marked.offers offered)
    (fun v mem => marked.offers (arguments v mem)) trivial room).reaches reached).holds

/-- What a state in order gives is in order too. -/
theorem Marked.take (marked : h.Marked) {state : State} (holds : parameterDiscipline.Holds state) :
    Marked ⟨state.context.store, state.given ++ h.given⟩ := by
  refine ⟨holds.context.store, List.forall_mem_append.mpr ⟨?_, marked.2⟩⟩
  obtain ⟨control, context⟩ := state
  cases control with
  | finish v => exact List.forall_mem_singleton.mpr holds.control
  | _ => exact List.forall_mem_nil _

theorem Marked.operates (marked : h.Marked) (operated : Operates h after) : after.Marked := by
  cases operated with
  | addGlobal console withNatives => exact ⟨marked.1.addGlobal console withNatives, marked.2⟩
  | enclose outer => exact ⟨marked.1.addFrame (List.forall_mem_nil _), marked.2⟩
  | define f name offered => exact ⟨marked.1.define f name (marked.offers offered), marked.2⟩
  | assign offered assigned =>
      obtain ⟨target, -, rfl⟩ := Option.map_eq_some_iff.mp assigned
      exact ⟨marked.1.define target _ (marked.offers offered), marked.2⟩
  | addAlias f synonym meaning => exact ⟨marked.1.addAlias f synonym meaning, marked.2⟩
  | evaluate offered reached => exact marked.take (marked.evaluating offered reached)
  | call offered arguments reached => exact marked.take (marked.calling offered arguments reached)
  | useStreams same => exact ⟨marked.1.of_frames same, marked.2⟩

theorem Reachable.marked (reachable : h.Reachable) : h.Marked := by
  induction reachable with
  | refl =>
      refine ⟨fun f frame found => ?_, List.forall_mem_nil _⟩
      simp [Store.empty] at found
  | tail _ last ih => exact ih.operates last

end Host

/-- A parameter list is accepted just when it is a list of symbols of which at most one is the marker,
with just one other name after it, or of which the last two are markers and no other is. The second
kind should not be accepted. Every closure that a program comes by, and every closure at any time of an
evaluation or a call, has a list of one of the two kinds. -/
theorem parameterNames_marked {h : Host} (reachable : h.Reachable) :
    (∀ v names, parameterNames v = .ok names ↔
      v = .list (names.map .symbol) ∧ (WellMarked names ∨ MarkedTwice names)) ∧
    (∀ names, (parameterNames (.list (names.map .symbol)) = .ok names ↔ WellMarked names) ↔
      ¬ MarkedTwice names) ∧
    (∀ c, h.Contains c → WellMarked c.parameters ∨ MarkedTwice c.parameters) ∧
    (∀ form frame room state, h.Offers form →
      State.Reaches ⟨.eval form frame, ⟨[], room, h.store⟩⟩ state →
        parameterDiscipline.Holds state) ∧
    ∀ callee args frame room state, h.Offers callee → (∀ v ∈ args, h.Offers v) →
      State.Reaches ⟨.call callee args frame .answer, ⟨[], room, h.store⟩⟩ state →
        parameterDiscipline.Holds state := by
  refine ⟨fun _ _ => parameterNames_eq_ok_iff, fun _ => parameterNames_eq_ok_iff_wellMarked,
    ?_, ?_, ?_⟩
  · exact fun c present => reachable.marked.contains present
  · exact fun _ _ _ _ offered reached => reachable.marked.evaluating offered reached
  · exact fun _ _ _ _ _ offered arguments reached =>
      reachable.marked.calling offered arguments reached

/-- A closure with the marker twice in its parameter list. -/
private def markedClosure : Closure Value :=
  ⟨["a", restMarker, restMarker], .symbol "a", 0, none⟩

private def markedForm : Value :=
  .list [.symbol "lambda", .list [.symbol "a", .symbol restMarker, .symbol restMarker], .symbol "a"]

private theorem not_wellMarked_markedClosure : ¬ WellMarked markedClosure.parameters :=
  fun marked => absurd marked.1 (by decide)

private theorem exists_reachable_markedClosure :
    ∃ h : Host, h.Reachable ∧ h.Contains markedClosure := by
  have global : Host.Reachable _ := .single (.addGlobal 0 true)
  have offered : Host.Offers ⟨(Store.empty.addGlobal 0 true).2, []⟩ markedForm := by
    simp [Host.Offers, markedForm]
  have reached : State.Reaches
      ⟨.eval markedForm 0, ⟨[], 9, (Store.empty.addGlobal 0 true).2⟩⟩
      ⟨.finish (.procedure ⟨.closure markedClosure, false⟩),
        ⟨[], 9, (Store.empty.addGlobal 0 true).2⟩⟩ := ⟨1, rfl⟩
  exact ⟨_, global.tail (.evaluate offered reached), .inr ⟨_, List.mem_cons_self, .self false⟩⟩

theorem parameterNames_marked_twice :
    ∃ h : Host, h.Reachable ∧ h.Contains markedClosure ∧ MarkedTwice markedClosure.parameters := by
  obtain ⟨h, reachable, present⟩ := exists_reachable_markedClosure
  have marked := (parameterNames_marked reachable).2.2.1 markedClosure present
  exact ⟨h, reachable, present, marked.resolve_left not_wellMarked_markedClosure⟩

/-- A second marker passes for the name after the first, and a closure gets such a parameter list. -/
theorem not_wellMarked_parameterNames :
    (∃ names, parameterNames (.list [.symbol restMarker, .symbol restMarker]) = .ok names ∧
      ¬ WellMarked names) ∧
    ∃ (h : Host) (c : Closure Value), h.Reachable ∧ h.Contains c ∧ ¬ WellMarked c.parameters := by
  refine ⟨⟨_, rfl, fun marked => absurd marked.1 (by decide)⟩, ?_⟩
  obtain ⟨h, reachable, present⟩ := exists_reachable_markedClosure
  exact ⟨h, markedClosure, reachable, present, not_wellMarked_markedClosure⟩

end Lisp
