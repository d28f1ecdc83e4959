import Lisp.Proofs.Store.Caller
import Lisp.Proofs.Value.Closures

/-! Frames form a forest: following the enclosing frames leads to older ones and ends at a root. All
ways of looking at what is visible from a frame agree. -/

set_option autoImplicit false

namespace Lisp

namespace Store

/-- The closures in a value have their homes among the frames of the store. -/
def Belongs (s : Store) (v : Value) : Prop :=
  v.AllClosures fun c => c.home < s.frames.size

end Store

/-- A frame is in order as frame `f` of a store. -/
structure Frame.InOrder (s : Store) (f : FrameId) (frame : Frame) : Prop where
  older : ∀ {outer}, frame.outer = some outer → outer < f
  shared : ∀ {outer}, frame.outer = some outer → s.consoleOf outer = frame.console
  bindings : frame.bindings.Ascending
  aliases : frame.aliases.Ascending
  values : ∀ entry ∈ frame.bindings, s.Belongs entry.2

namespace Store

def Forest (s : Store) : Prop :=
  ∀ (f : FrameId) (frame : Frame), s.frames[f]? = some frame → frame.InOrder s f

/-- The frames from one outward, up to the root. -/
inductive Ancestry (s : Store) : FrameId → List FrameId → Prop where
  | root {f : FrameId} (present : f < s.frames.size) (noOuter : s.outerOf f = none) :
      Ancestry s f [f]
  | enclosed {f g : FrameId} {path : List FrameId} (link : s.outerOf f = some g)
      (rest : Ancestry s g path) : Ancestry s f (f :: path)

/-- The nearest record of something, from a frame outward. -/
inductive Innermost {α : Type} (s : Store) (recorded : FrameId → Option α) : FrameId → α → Prop where
  | here {f : FrameId} {a : α} (found : recorded f = some a) : Innermost s recorded f a
  | outside {f g : FrameId} {a : α} (absent : recorded f = none) (link : s.outerOf f = some g)
      (further : Innermost s recorded g a) : Innermost s recorded f a

variable {s : Store} {f g : FrameId}

theorem outerOf_eq_some :
    s.outerOf f = some g ↔ ∃ frame, s.frames[f]? = some frame ∧ frame.outer = some g :=
  Option.bind_eq_some_iff

namespace Forest

variable (forest : Forest s)

include forest

theorem older (link : s.outerOf f = some g) : g < f := by
  obtain ⟨frame, found, outer⟩ := outerOf_eq_some.mp link
  exact (forest f frame found).older outer

theorem consoleOf_outer (link : s.outerOf f = some g) : s.consoleOf g = s.consoleOf f := by
  obtain ⟨frame, found, outer⟩ := outerOf_eq_some.mp link
  have shared := (forest f frame found).shared outer
  rw [shared, consoleOf, found]

theorem ascending_bindingsOf (f : FrameId) : (s.bindingsOf f).Ascending := by
  rw [bindingsOf]
  split
  · next frame found => exact (forest f frame found).bindings
  · exact List.Pairwise.nil

theorem ascending_aliasesOf (f : FrameId) : (s.aliasesOf f).Ascending := by
  rw [aliasesOf]
  split
  · next frame found => exact (forest f frame found).aliases
  · exact List.Pairwise.nil

/-! ## Chains -/

theorem ancestry_chainFrom {rounds : Nat} (enough : f < rounds) (present : f < s.frames.size) :
    Ancestry s f (s.chainFrom rounds f) := by
  induction rounds generalizing f with
  | zero => cases enough
  | succ rounds ih =>
      obtain ⟨frame, found⟩ : ∃ frame, s.frames[f]? = some frame :=
        ⟨_, Array.getElem?_eq_getElem present⟩
      simp only [chainFrom, found]
      cases outer : frame.outer with
      | none => exact .root present (by rw [outerOf, found, Option.bind_some, outer])
      | some g =>
          have link : s.outerOf f = some g := outerOf_eq_some.mpr ⟨frame, found, outer⟩
          have less := forest.older link
          -- Each round goes to an older frame, so the rounds left are enough for what is left.
          have enoughLeft : g < rounds := less.trans_le (Nat.lt_succ_iff.mp enough)
          exact .enclosed link (ih enoughLeft (less.trans present))

theorem ancestry (present : f < s.frames.size) : Ancestry s f (s.chain f) :=
  forest.ancestry_chainFrom (Nat.lt_succ_self f) present

end Forest

namespace Ancestry

variable {path : List FrameId}

theorem descends (forest : Forest s) (ancestry : Ancestry s f path) :
    path.Pairwise (fun inner outer => outer < inner) ∧ ∀ h ∈ path, h ≤ f := by
  induction ancestry with
  | root => simp
  | @enclosed f g path link rest ih =>
      obtain ⟨ordered, below⟩ := ih
      have less := forest.older link
      have inside : ∀ h ∈ path, h < f := fun h mem => (below h mem).trans_lt less
      exact ⟨List.pairwise_cons.mpr ⟨inside, ordered⟩,
        List.forall_mem_cons.mpr ⟨Nat.le_refl f, fun h mem => (inside h mem).le⟩⟩

theorem nodup (forest : Forest s) (ancestry : Ancestry s f path) : path.Nodup :=
  (ancestry.descends forest).1.imp fun less => Nat.ne_of_gt less

theorem head_eq (ancestry : Ancestry s f path) : path = f :: path.tail := by
  cases ancestry <;> rfl

/-- The same frames in the order of an outer assignment, which comes to the frame itself last. -/
theorem nodup_outer (forest : Forest s) (ancestry : Ancestry s f path) :
    (path.tail ++ [f]).Nodup := by
  have distinct := ancestry.nodup forest
  rw [ancestry.head_eq] at distinct
  exact (List.perm_append_singleton f path.tail).nodup_iff.mpr distinct

theorem consoleOf_eq (forest : Forest s) (ancestry : Ancestry s f path) :
    ∀ h ∈ path, s.consoleOf h = s.consoleOf f := by
  induction ancestry with
  | root => simp
  | enclosed link rest ih =>
      have shared := forest.consoleOf_outer link
      exact List.forall_mem_cons.mpr ⟨rfl, fun h mem => (ih h mem).trans shared⟩

theorem findSome?_iff {α : Type} {recorded : FrameId → Option α} {a : α}
    (ancestry : Ancestry s f path) :
    path.findSome? recorded = some a ↔ Innermost s recorded f a := by
  induction ancestry with
  | @root f present noOuter =>
      rw [List.findSome?_singleton]
      constructor
      · exact .here
      · intro innermost
        cases innermost with
        | here found => exact found
        | outside _ link => simp [noOuter] at link
  | @enclosed f g path link rest ih =>
      rw [List.findSome?_cons]
      cases found : recorded f with
      | some own =>
          constructor
          · rintro ⟨⟩
            exact .here found
          · intro innermost
            cases innermost with
            | here same => exact found.symm.trans same
            | outside absent => simp [found] at absent
      | none =>
          constructor
          · exact fun further => .outside found link (ih.mp further)
          · intro innermost
            cases innermost with
            | here same => simp [found] at same
            | outside _ link' further =>
                cases link.symm.trans link'
                exact ih.mpr further

end Ancestry

/-! ## Views -/

/-- Walks from a frame outward are finite and visit no frame twice, and all frames on the way share a
console. -/
structure WalksOutward (s : Store) (f : FrameId) : Prop where
  ancestry : Ancestry s f (s.chain f)
  lookup : (s.chain f).Nodup
  assignment : ((s.chain f).tail ++ [f]).Nodup
  console : ∀ g ∈ s.chain f, s.consoleOf g = s.consoleOf f

/-- Looking up single names, listing bindings, listing names and listing aliases agree on what is
visible from a frame: the innermost record counts. -/
structure ViewsAgree (s : Store) (f : FrameId) : Prop where
  lookup : ∀ name value, s.lookup? f name = some value ↔ Innermost s (s.own? · name) f value
  bindings : (s.visible f).Ascending ∧ ∀ name, (s.visible f).get? name = s.lookup? f name
  names : (s.identifiers f).Nodup ∧
    ∀ name, name ∈ s.identifiers f ↔ (s.lookup? f name).isSome
  aliases : (s.visibleAliases f).Ascending ∧ ∀ synonym meaning,
    (s.visibleAliases f).get? synonym = some meaning ↔
      Innermost s (fun g => (s.aliasesOf g).get? synonym) f meaning

namespace Forest

variable (forest : Forest s)

include forest

theorem walksOutward (present : f < s.frames.size) : s.WalksOutward f where
  ancestry := forest.ancestry present
  lookup := (forest.ancestry present).nodup forest
  assignment := (forest.ancestry present).nodup_outer forest
  console := (forest.ancestry present).consoleOf_eq forest

theorem mem_identifiers (f : FrameId) (name : String) :
    name ∈ s.identifiers f ↔ (s.lookup? f name).isSome := by
  rw [identifiers, Dict.mem_keys_iff,
    Dict.get?_foldr_insertAll fun g => Dict.ascending_names (forest.ascending_bindingsOf g),
    List.findSome?_isSome_iff, lookup?, List.findSome?_isSome_iff]
  simp only [Dict.isSome_get?_names, own?]

theorem viewsAgree (present : f < s.frames.size) : s.ViewsAgree f where
  lookup _ _ := (forest.ancestry present).findSome?_iff
  bindings := ⟨Dict.ascending_foldr_insertAll _ _,
    Dict.get?_foldr_insertAll forest.ascending_bindingsOf _⟩
  names := ⟨(Dict.ascending_foldr_insertAll _ _).nodup_keys, forest.mem_identifiers f⟩
  aliases := by
    refine ⟨Dict.ascending_foldr_insertAll _ _, fun synonym meaning => ?_⟩
    rw [visibleAliases, Dict.get?_foldr_insertAll forest.ascending_aliasesOf]
    exact (forest.ancestry present).findSome?_iff

end Forest

end Store

end Lisp
