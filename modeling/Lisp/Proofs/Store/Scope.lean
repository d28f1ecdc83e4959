import Lisp.Proofs.Dict
import Lisp.Proofs.Direct.Respected

/-! Evaluation in a frame adds names to that frame and to frames that it creates, and to no other. -/

set_option autoImplicit false

namespace Lisp

namespace Store

def Binds (s : Store) (f : FrameId) (name : String) : Prop :=
  (s.own? f name).isSome

def outerOf (s : Store) (f : FrameId) : Option FrameId :=
  s.frames[f]?.bind Frame.outer

/-- A frame binds the same names, with whatever values, has the same aliases, and is enclosed in the
same frame. -/
structure SameScope (before after : Store) (f : FrameId) : Prop where
  names : ∀ name, after.Binds f name ↔ before.Binds f name
  aliases : after.aliasesOf f = before.aliasesOf f
  outer : after.outerOf f = before.outerOf f

/-- Work in the frame `f` leaves the scope of every other frame that was there as it was, and takes
no name away from `f`. -/
structure Isolates (f : FrameId) (before after : Store) : Prop where
  frames : before.frames.size ≤ after.frames.size
  others : ∀ g < before.frames.size, g ≠ f → SameScope before after g
  names : ∀ name, before.Binds f name → after.Binds f name

namespace SameScope

variable {before middle after : Store} {f : FrameId}

theorem refl (s : Store) (f : FrameId) : SameScope s s f :=
  ⟨fun _ => Iff.rfl, rfl, rfl⟩

theorem trans (first : SameScope before middle f) (second : SameScope middle after f) :
    SameScope before after f where
  names name := (second.names name).trans (first.names name)
  aliases := second.aliases.trans first.aliases
  outer := second.outer.trans first.outer

theorem of_frame (same : after.frames[f]? = before.frames[f]?) : SameScope before after f := by
  refine ⟨fun name => ?_, ?_, ?_⟩
  · rw [Binds, Binds, own?, own?, bindingsOf, bindingsOf, same]
  · rw [aliasesOf, aliasesOf, same]
  · rw [outerOf, outerOf, same]

end SameScope

/-! ## Frames after an operation -/

theorem define_frame (s : Store) (f g : FrameId) (name : String) (value : Value) :
    (s.define f name value).frames[g]? = if f = g then
      s.frames[g]?.map fun frame => { frame with bindings := frame.bindings.insert name value }
    else s.frames[g]? := by
  simp only [define, Array.getElem?_modify]

theorem addAlias_frame (s : Store) (f g : FrameId) (synonym meaning : String) :
    (s.addAlias f synonym meaning).frames[g]? = if f = g then
      s.frames[g]?.map fun frame =>
        { frame with aliases := frame.aliases.insert synonym meaning }
    else s.frames[g]? := by
  simp only [addAlias, Array.getElem?_modify]

theorem addChild_frame (s : Store) (outer : FrameId) (bindings : Dict Value) {g : FrameId}
    (old : g < s.frames.size) : (s.addChild outer bindings).2.frames[g]? = s.frames[g]? := by
  simp only [addChild, addFrame, Array.getElem?_push_lt old, Array.getElem?_eq_getElem old]

theorem writeOutput_frames (s : Store) (f : FrameId) (text : String) :
    (s.writeOutput f text).2.frames = s.frames := by
  rw [writeOutput]
  cases (s.console f).output <;> rfl

/-- A frame that is there binds a name in addition to those that it bound. -/
theorem binds_define (s : Store) (f : FrameId) (name other : String) (value : Value)
    (present : f < s.frames.size) :
    (s.define f name value).Binds f other ↔ other = name ∨ s.Binds f other := by
  have found : s.frames[f]? = some s.frames[f] := Array.getElem?_eq_getElem present
  simp only [Binds, own?, bindingsOf, define_frame, found, if_true, Option.map_some]
  exact Dict.isSome_get?_insert _ name other value

theorem lt_size_of_binds {s : Store} {f : FrameId} {name : String} (binds : s.Binds f name) :
    f < s.frames.size := by
  by_contra absent
  have missing : s.frames[f]? = none := Array.getElem?_eq_none (not_lt.mp absent)
  simp [Binds, own?, bindingsOf, missing, Dict.get?] at binds

/-- A new value for a name that is bound changes no scope. -/
theorem sameScope_define {s : Store} {f : FrameId} {name : String} (value : Value)
    (binds : s.Binds f name) (g : FrameId) : SameScope s (s.define f name value) g := by
  by_cases same : f = g
  · subst same
    refine ⟨fun other => ?_, ?_, ?_⟩
    · rw [binds_define s f name other value (lt_size_of_binds binds)]
      constructor
      · rintro (rfl | bound)
        · exact binds
        · exact bound
      · exact .inr
    · rw [aliasesOf, aliasesOf, define_frame, if_pos rfl]
      cases s.frames[f]? <;> rfl
    · rw [outerOf, outerOf, define_frame, if_pos rfl]
      cases s.frames[f]? <;> rfl
  · exact .of_frame (by rw [define_frame, if_neg same])

/-! ## Isolation -/

namespace Isolates

variable {f : FrameId} {before middle after : Store}

theorem refl (f : FrameId) (s : Store) : Isolates f s s :=
  ⟨Nat.le_refl _, fun g _ _ => .refl s g, fun _ binds => binds⟩

theorem trans (first : Isolates f before middle) (second : Isolates f middle after) :
    Isolates f before after where
  frames := first.frames.trans second.frames
  others g old other :=
    (first.others g old other).trans (second.others g (old.trans_le first.frames) other)
  names name binds := second.names name (first.names name binds)

theorem of_frames (same : after.frames = before.frames) : Isolates f before after where
  frames := by rw [same]
  others g _ _ := .of_frame (by rw [same])
  names name := ((SameScope.of_frame (by rw [same])).names name).mpr

theorem define (f : FrameId) (s : Store) (name : String) (value : Value) :
    Isolates f s (s.define f name value) where
  frames := by simp [Store.define]
  others g _ other := .of_frame (by rw [define_frame, if_neg (Ne.symm other)])
  names other binds :=
    (binds_define s f name other value (lt_size_of_binds binds)).mpr (.inr binds)

/-- An outer assignment changes the value of a name in a frame that binds it. -/
theorem assign {s : Store} {name : String} {target : FrameId} (value : Value)
    (found : s.assignee? f name = some target) : Isolates f s (s.define target name value) := by
  have bound := List.find?_some found
  have binds : s.Binds target name := bound
  exact ⟨by simp [Store.define], fun g _ _ => sameScope_define value binds g,
    fun other => ((sameScope_define value binds f).names other).mpr⟩

theorem addAlias (f : FrameId) (s : Store) (synonym meaning : String) :
    Isolates f s (s.addAlias f synonym meaning) where
  frames := by simp [Store.addAlias]
  others g _ other := .of_frame (by rw [addAlias_frame, if_neg (Ne.symm other)])
  names other binds := by
    rw [Binds, own?, bindingsOf, addAlias_frame, if_pos rfl]
    rw [Binds, own?, bindingsOf] at binds
    cases found : s.frames[f]? <;> simpa [found] using binds

/-- Work in a new frame leaves every scope that was there as it was, that of the frame from which it
was entered included. -/
theorem leave {s : Store} {outer : FrameId} {bindings : Dict Value}
    (inside : Isolates (s.addChild outer bindings).1 (s.addChild outer bindings).2 after) :
    Isolates f s after := by
  have grown : (s.addChild outer bindings).2.frames.size = s.frames.size + 1 :=
    Array.size_push _
  have kept : ∀ g < s.frames.size, SameScope s after g := by
    intro g old
    have entered : SameScope s (s.addChild outer bindings).2 g :=
      .of_frame (addChild_frame s outer bindings old)
    have created : g ≠ (s.addChild outer bindings).1 := Nat.ne_of_lt old
    exact entered.trans (inside.others g (by omega) created)
  have larger := inside.frames
  exact ⟨by omega, fun g old _ => kept g old,
    fun name binds => ((kept f (lt_size_of_binds binds)).names name).mpr binds⟩

end Isolates

theorem respected_isolates : Direct.Respected Isolates where
  refl := Isolates.refl
  trans := Isolates.trans
  define := Isolates.define
  assign value found := Isolates.assign value found
  addAlias := Isolates.addAlias
  writeOutput frame store text := .of_frames (writeOutput_frames store frame text)
  readLine _ _ := .of_frames rfl
  leave := Isolates.leave

end Store

/-- Whatever an evaluation runs, every frame that was there before, other than the one in which it
runs, binds the same names afterwards and has the same aliases and the same enclosing frame; the
frame in which it runs still binds every name that it bound. -/
theorem evaluateWithin_isolates {budget fuel : Nat} {form value : Value} {frame : FrameId}
    {before after : Store}
    (ended : evaluateWithin budget fuel form frame before = some (value, after)) :
    Store.Isolates frame before after :=
  Store.respected_isolates.evaluateWithin ended

/-- A global frame that binds `x`, and an empty frame within it. -/
private def nestedStore : Store :=
  ⟨#[⟨none, [("x", .nil)], [], 0⟩, ⟨some 0, [], [], 0⟩], #[], #[]⟩

/-- Defines a name in the body of a closure and one around it, and assigns `x` from within. -/
private def scopedForm : Value :=
  .list [.symbol "begin",
    .list [.symbol "define", .symbol "y", .bool true],
    .list [
      .list [.symbol "lambda", .list [.symbol "z"],
        .list [.symbol "begin",
          .list [.symbol "define", .symbol "w", .symbol "z"],
          .list [.symbol "alias", .symbol "v", .symbol "y"],
          .list [.symbol "set!", .symbol "x", .symbol "w", .symbol "outer"],
          .symbol "x"]],
      .bool false]]

theorem evaluateWithin_isolates_scopedForm :
    ∃ after, evaluateWithin 10 60 scopedForm 1 nestedStore = some (.bool false, after) ∧
      after.frames.size = 3 ∧ Store.Isolates 1 nestedStore after :=
  ⟨_, rfl, rfl, evaluateWithin_isolates
    (rfl : evaluateWithin 10 60 scopedForm 1 nestedStore = some (.bool false, _))⟩

end Lisp
