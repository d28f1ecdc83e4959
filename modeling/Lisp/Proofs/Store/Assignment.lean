import Lisp.Proofs.Machine.Waiting
import Lisp.Proofs.Store.Operations

/-! An outer assignment gives one name a new value in one frame: in the nearest of the frames around
the current one that bind the name, or else in the current frame. -/

set_option autoImplicit false

namespace Lisp

namespace Store

variable {s t : Store} {f target : FrameId} {name : String}

/-! ## The frame that is written to -/

/-- The nearest frame that binds a name, from a frame outward. -/
def NearestBinder (s : Store) (name : String) : FrameId → FrameId → Prop :=
  Innermost s (Option.guard fun g => (s.own? g name).isSome)

/-- The frame in which an assignment in `f` finds the name. The frames around `f` come before `f`
itself, other than when the name is looked up. -/
inductive Assignee (s : Store) (name : String) (f : FrameId) : FrameId → Prop where
  | around {outer target : FrameId} (link : s.outerOf f = some outer)
      (nearest : s.NearestBinder name outer target) : Assignee s name f target
  | own (noneAround : ∀ outer target, s.outerOf f = some outer →
      ¬ s.NearestBinder name outer target) (binds : s.Binds f name) : Assignee s name f f

namespace Ancestry

variable {path : List FrameId}

theorem find?_iff (ancestry : Ancestry s f path) :
    path.find? (fun g => (s.own? g name).isSome) = some target ↔ s.NearestBinder name f target := by
  rw [← List.findSome?_guard]
  exact ancestry.findSome?_iff

theorem find?_tail_iff (ancestry : Ancestry s f path) :
    path.tail.find? (fun g => (s.own? g name).isSome) = some target ↔
      ∃ outer, s.outerOf f = some outer ∧ s.NearestBinder name outer target := by
  cases ancestry with
  | root _ noOuter => simp [noOuter]
  | enclosed link rest => simp [link, rest.find?_iff]

end Ancestry

namespace Forest

variable (forest : Forest s) (present : f < s.frames.size)

include forest present

theorem assignee?_eq_some_iff : s.assignee? f name = some target ↔ s.Assignee name f target := by
  have around : ∀ g, (s.chain f).tail.find? (fun g => (s.own? g name).isSome) = some g ↔
      ∃ outer, s.outerOf f = some outer ∧ s.NearestBinder name outer g :=
    fun _ => (forest.ancestry present).find?_tail_iff
  rw [assignee?, List.find?_append, Option.or_eq_some_iff, around,
    Option.eq_none_iff_forall_ne_some]
  constructor
  · rintro (⟨outer, link, nearest⟩ | ⟨noneAround, found⟩)
    · exact .around link nearest
    · have binds := List.find?_some found
      obtain rfl : target = f := List.mem_singleton.mp (List.mem_of_find?_eq_some found)
      exact .own (fun outer g link nearest => noneAround g ((around g).mpr ⟨outer, link, nearest⟩))
        binds
  · rintro (⟨link, nearest⟩ | ⟨noneAround, binds⟩)
    · exact .inl ⟨_, link, nearest⟩
    · refine .inr ⟨fun g found => ?_, List.find?_cons_of_pos binds⟩
      obtain ⟨outer, link, nearest⟩ := (around g).mp found
      exact noneAround outer g link nearest

/-- An assignment finds a name just when a lookup does. -/
theorem isSome_assign?_iff {value : Value} :
    (s.assign? f name value).isSome ↔ (s.lookup? f name).isSome := by
  rw [assign?, Option.isSome_map, assignee?, lookup?, List.find?_isSome, List.findSome?_isSome_iff,
    (forest.ancestry present).head_eq, List.tail_cons]
  simp [or_comm]

end Forest

/-! ## What is written -/

/-- The second store differs from the first in the value of one slot, which both of them have. -/
structure WritesSlot (s t : Store) (target : FrameId) (name : String) (value : Value) : Prop where
  bound : s.Binds target name
  written : t.own? target name = some value
  others : ∀ g other, g ≠ target ∨ other ≠ name → t.own? g other = s.own? g other
  frames : t.frames.size = s.frames.size
  scopes : ∀ g, SameScope s t g
  consoleOf : ∀ g, t.consoleOf g = s.consoleOf g
  consoles : t.consoles = s.consoles
  buffers : t.buffers = s.buffers

theorem writesSlot_define (binds : s.Binds target name) (value : Value) :
    s.WritesSlot (s.define target name value) target name value where
  bound := binds
  written := by
    have found := Array.getElem?_eq_getElem (lt_size_of_binds binds)
    simp only [own?, bindingsOf, define_frame, found, if_true, Option.map_some]
    exact Dict.get?_insert_same _ name value
  others g other elsewhere := by
    rw [own?, own?, bindingsOf, bindingsOf, define_frame]
    by_cases same : target = g
    · subst same
      have distinct : other ≠ name := elsewhere.resolve_left (absurd rfl)
      rw [if_pos rfl]
      cases s.frames[target]? with
      | none => rfl
      | some frame => exact Dict.get?_insert_other _ value distinct
    · rw [if_neg same]
  frames := by simp [Store.define]
  scopes := sameScope_define value binds
  consoleOf g := by
    rw [Store.consoleOf, Store.consoleOf, define_frame]
    by_cases same : target = g
    · rw [if_pos same]
      cases s.frames[g]? <;> rfl
    · rw [if_neg same]
  consoles := rfl
  buffers := rfl

theorem Forest.writesSlot_assign? (forest : Forest s) (present : f < s.frames.size) {value : Value}
    (assigned : s.assign? f name value = some t) :
    ∃ target, s.Assignee name f target ∧ s.WritesSlot t target name value := by
  obtain ⟨target, found, rfl⟩ := Option.map_eq_some_iff.mp assigned
  have binds := List.find?_some found
  exact ⟨target, (forest.assignee?_eq_some_iff present).mp found, writesSlot_define binds value⟩

/-! ## The form -/

theorem Forest.evaluated {budget : Nat} {form value : Value} (forest : Forest s)
    (belongs : s.Belongs form) (present : f < s.frames.size)
    (evaluates : Evaluates budget form f s value t) : Forest t ∧ f < t.frames.size := by
  obtain ⟨fuel, ended⟩ := evaluates
  cases budget with
  | zero =>
      cases ended
      exact ⟨forest, present⟩
  | succ room =>
      obtain ⟨left, reached⟩ := State.reaches_of_run ended
      have follows := forest.evaluating belongs present reached
      exact ⟨follows.holds.context.store, follows.change.lt_size present⟩

/-- The value is assigned after its evaluation, in the store that this leaves. -/
theorem evaluates_assign_iff {room : Nat} {form third result : Value} {rest : List Value}
    {before after : Store} :
    Evaluates (room + 1) (Keyword.assign.form (.symbol name :: form :: third :: rest)) f before
        result after ↔
      ∃ value middle, Evaluates room form f before value middle ∧
        (middle.assign? f name value = none ∧ result = .error (.notFound name) ∧ after = middle ∨
          middle.assign? f name value = some after ∧ result = .nil) := by
  rw [evaluates_form_iff]
  change (Context.descend ⟨[], room, before⟩ (.assign name f) form f).Halts _ ↔ _
  rw [descend_halts_iff]
  refine exists_congr fun value => exists_congr fun middle => and_congr_right fun _ => ?_
  cases found : middle.assignee? f name with
  | none =>
      simp only [Context.resumeStep, found, State.halts_finish, assign?, Prod.mk.injEq]
      simp [eq_comm]
  | some target =>
      simp only [Context.resumeStep, found, State.halts_finish, assign?, Prod.mk.injEq]
      simp [eq_comm, and_comm]

/-- An outer assignment succeeds just when the name can be looked up. It then changes the value of
one slot and nothing else: that of the name in the nearest frame around `f` that binds it, or in `f`
itself when none of these does. The form assigns the value in the store that its evaluation leaves;
if no frame binds the name by then, its value says so, and nothing else has changed. -/
theorem outerAssignment_writesSlot (forest : Forest s) (present : f < s.frames.size) (name : String) :
    (∀ value, (s.assign? f name value).isSome ↔ (s.lookup? f name).isSome) ∧
    (∀ value t, s.assign? f name value = some t →
      ∃ target, s.Assignee name f target ∧ s.WritesSlot t target name value) ∧
    ∀ room form third rest, s.Belongs form → ∀ result after,
      Evaluates (room + 1) (Keyword.assign.form (.symbol name :: form :: third :: rest)) f s result
          after ↔
        ∃ value middle, Evaluates room form f s value middle ∧
          (middle.lookup? f name = none ∧ result = .error (.notFound name) ∧ after = middle ∨
            middle.assign? f name value = some after ∧ result = .nil ∧
              ∃ target, middle.Assignee name f target ∧
                middle.WritesSlot after target name value) := by
  refine ⟨fun value => forest.isSome_assign?_iff present,
    fun value t => forest.writesSlot_assign? present, ?_⟩
  intro room form third rest belongs result after
  rw [evaluates_assign_iff]
  refine exists_congr fun value => exists_congr fun middle => and_congr_right fun evaluates => ?_
  obtain ⟨later, presentLater⟩ := forest.evaluated belongs present evaluates
  refine or_congr (and_congr_left' ?_) ?_
  · rw [← Option.not_isSome_iff_eq_none, later.isSome_assign?_iff presentLater,
      Option.not_isSome_iff_eq_none]
  · refine ⟨fun ⟨assigned, isNil⟩ => ?_, fun ⟨assigned, isNil, _⟩ => ⟨assigned, isNil⟩⟩
    exact ⟨assigned, isNil, later.writesSlot_assign? presentLater assigned⟩

/-- Three nested frames that all bind `x`; the innermost alone binds `z`. -/
private def shadowingStore : Store :=
  ⟨#[⟨none, [("x", .bool true)], [], 0⟩, ⟨some 0, [("x", .nil)], [], 0⟩,
    ⟨some 1, [("x", .bool false), ("z", .nil)], [], 0⟩], #[], #[]⟩

private theorem forest_shadowingStore : Forest shadowingStore := by
  have global : OperatesOn empty _ := .single (.addGlobal 0 false)
  have outermost := global.tail (.define 0 "x" (Value.allClosures_bool true))
  have middle := outermost.tail (.enclose (show 0 < 1 by decide))
  have shadowed := middle.tail (.define 1 "x" Value.allClosures_nil)
  have innermost := shadowed.tail (.enclose (show 1 < 2 by decide))
  have shadowedTwice := innermost.tail (.define 2 "x" (Value.allClosures_bool false))
  exact (Forest.empty.operatesOn (shadowedTwice.tail (.define 2 "z" Value.allClosures_nil))).1

/-- Defines `w` where it is evaluated, and has `z` for its value. -/
private def definingForm : Value :=
  Keyword.begin.form [Keyword.define.form [.symbol "w", .bool true], .symbol "z"]

/-- From the innermost frame the `x` in the middle is assigned, which is not the one that a lookup
finds, and `w` is there only after the evaluation of its value. -/
theorem outerAssignment_writesSlot_shadowing :
    Forest shadowingStore ∧ 2 < shadowingStore.frames.size ∧ shadowingStore.Belongs definingForm ∧
      (∃ t target, shadowingStore.assign? 2 "x" (.bool true) = some t ∧
        shadowingStore.Assignee "x" 2 target ∧
        shadowingStore.WritesSlot t target "x" (.bool true) ∧ t.own? 1 "x" = some (.bool true)) ∧
      ∃ after value middle,
        Evaluates 3 (Keyword.assign.form [.symbol "w", definingForm, .symbol "outer"]) 2
          shadowingStore .nil after ∧
        Evaluates 2 definingForm 2 shadowingStore value middle ∧
        ∃ target, middle.Assignee "w" 2 target ∧ middle.WritesSlot after target "w" value := by
  have forest := forest_shadowingStore
  have present : 2 < shadowingStore.frames.size := by decide
  have belongs : shadowingStore.Belongs definingForm := by
    simp [definingForm, Keyword.form, Belongs]
  obtain ⟨-, writes, -⟩ := outerAssignment_writesSlot forest present "x"
  obtain ⟨-, -, evaluated⟩ := outerAssignment_writesSlot forest present "w"
  obtain ⟨target, found, written⟩ := writes (.bool true) _ rfl
  have ended : Evaluates 3 (Keyword.assign.form [.symbol "w", definingForm, .symbol "outer"]) 2
      shadowingStore .nil _ := ⟨30, rfl⟩
  obtain ⟨value, middle, first, ⟨-, failed, -⟩ | ⟨-, -, assigned⟩⟩ :=
    (evaluated 2 definingForm (.symbol "outer") [] belongs _ _).mp ended
  · cases failed
  · exact ⟨forest, present, belongs, ⟨_, target, rfl, found, written, rfl⟩,
      _, value, middle, ended, first, assigned⟩

end Store

end Lisp
