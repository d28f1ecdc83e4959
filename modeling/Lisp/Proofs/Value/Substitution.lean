import Lisp.Proofs.Direct.Template
import Mathlib.Data.List.Forall2

/-! Filling a template is substitution: each hole gives way to its value, or to the items of its
value, and everything else stays as it is. -/

set_option autoImplicit false

namespace Lisp

/-- The value fills the hole: into a hole for items goes a list or nil. -/
def Hole.Takes (hole : Hole) (value : Value) : Prop :=
  hole.kind = .splice → (∃ items, value = .list items) ∨ value = .nil

namespace Template

/-! ## Substitution -/

mutual

/-- The template with its holes, from left to right, filled by the values beside them. -/
inductive Substituted : Value → List (Hole × Value) → Value → Prop where
  | hole (operand value : Value) :
      Substituted (.list [.symbol "unquote", operand]) [(⟨.value, operand⟩, value)] value
  | leaf {template : Value} (noList : ∀ items, template ≠ .list items) :
      Substituted template [] template
  | list {items results : List Value} {filled : List (Hole × Value)}
      (noHole : ∀ operand, Value.list items ≠ .list [.symbol "unquote", operand])
      (inside : SubstitutedItems items filled results) :
      Substituted (.list items) filled (.list results)

/-- The items of a list in a template, where a hole may stand for any number of items. -/
inductive SubstitutedItems : List Value → List (Hole × Value) → List Value → Prop where
  | nil : SubstitutedItems [] [] []
  | noItems (operand : Value) {rest results : List Value} {filled : List (Hole × Value)}
      (others : SubstitutedItems rest filled results) :
      SubstitutedItems (.list [.symbol "splice-unquote", operand] :: rest)
        ((⟨.splice, operand⟩, .nil) :: filled) results
  | items (operand : Value) (spliced : List Value) {rest results : List Value}
      {filled : List (Hole × Value)} (others : SubstitutedItems rest filled results) :
      SubstitutedItems (.list [.symbol "splice-unquote", operand] :: rest)
        ((⟨.splice, operand⟩, .list spliced) :: filled) (spliced ++ results)
  | item {item result : Value} {rest results : List Value} {own filled : List (Hole × Value)}
      (noHole : ∀ operand, item ≠ .list [.symbol "splice-unquote", operand])
      (first : Substituted item own result) (others : SubstitutedItems rest filled results) :
      SubstitutedItems (item :: rest) (own ++ filled) (result :: results)

end

/-! ## Filling -/

mutual

theorem substituted_fill (template : Value) {values : List Value}
    (taken : List.Forall₂ Hole.Takes (holes template) values) :
    Substituted template ((holes template).zip values) (fill template values).1 := by
  match template with
  | .nil | .bool _ | .number _ | .string _ | .char _ | .symbol _ | .error _ | .hash _ _
  | .procedure _ =>
      rw [holes_leaf (by simp), List.zip_nil_left]
      exact .leaf (by simp)
  | .list items =>
      cases unquoted : (Value.list items).unquoted? with
      | some operand =>
          rw [holes_unquoted unquoted] at taken ⊢
          rw [fill_unquoted unquoted, Value.wrapped?_eq_some.mp unquoted]
          cases taken with
          | @cons _ value _ _ _ others =>
              cases others
              exact .hole operand value
      | none =>
          rw [holes_list unquoted] at taken ⊢
          rw [fill_list unquoted]
          exact .list (Value.wrapped?_eq_none.mp unquoted) (substitutedItems_fill items taken)

theorem substitutedItems_fill (items : List Value) {values : List Value}
    (taken : List.Forall₂ Hole.Takes (itemHoles items) values) :
    SubstitutedItems items ((itemHoles items).zip values) (fillItems items values).1 := by
  match items with
  | [] => exact .nil
  | item :: rest =>
      cases spliced : item.spliced? with
      | some operand =>
          rw [itemHoles_spliced spliced] at taken ⊢
          cases taken with
          | @cons _ value _ values takes others =>
              have filled := substitutedItems_fill rest others
              rw [fillItems_spliced spliced, next_cons, Value.wrapped?_eq_some.mp spliced]
              rcases takes rfl with ⟨items, rfl⟩ | rfl
              · exact .items operand items filled
              · exact .noItems operand filled
      | none =>
          rw [itemHoles_plain spliced] at taken ⊢
          -- The first values are those of the holes in this item.
          have own := List.forall₂_take (holes item).length taken
          have others := List.forall₂_drop (holes item).length taken
          rw [List.take_left] at own
          rw [List.drop_left] at others
          rw [← List.take_append_drop (holes item).length values, List.zip_append own.length_eq,
            fillItems_plain spliced, fill_append item _ _ own.length_eq.symm]
          exact .item (Value.wrapped?_eq_none.mp spliced) (substituted_fill item own)
            (substitutedItems_fill rest others)

end

mutual

theorem Substituted.fill_eq {template result : Value} {filled : List (Hole × Value)}
    (substituted : Substituted template filled result) (more : List Value) :
    fill template (filled.map Prod.snd ++ more) = (result, more) := by
  cases substituted with
  | hole operand value => exact fill_unquoted (Value.wrapped?_eq_some.mpr rfl) _
  | leaf noList => exact fill_leaf noList more
  | list noHole inside =>
      rw [fill_list (Value.wrapped?_eq_none.mpr noHole), inside.fillItems_eq more]

theorem SubstitutedItems.fillItems_eq {items results : List Value} {filled : List (Hole × Value)}
    (substituted : SubstitutedItems items filled results) (more : List Value) :
    fillItems items (filled.map Prod.snd ++ more) = (results, more) := by
  cases substituted with
  | nil => rfl
  | noItems operand others =>
      rw [List.map_cons, List.cons_append, fillItems_spliced (Value.wrapped?_eq_some.mpr rfl),
        next_cons, others.fillItems_eq more]
      rfl
  | items operand spliced others =>
      rw [List.map_cons, List.cons_append, fillItems_spliced (Value.wrapped?_eq_some.mpr rfl),
        next_cons, others.fillItems_eq more]
      rfl
  | item noHole first others =>
      rw [List.map_append, List.append_assoc,
        fillItems_plain (Value.wrapped?_eq_none.mpr noHole), first.fill_eq, others.fillItems_eq more]

end

mutual

/-- What is filled are the holes of the template, each with a value that it takes. -/
theorem Substituted.fills {template result : Value} {filled : List (Hole × Value)}
    (substituted : Substituted template filled result) :
    filled.map Prod.fst = holes template ∧ ∀ entry ∈ filled, entry.1.Takes entry.2 := by
  cases substituted with
  | hole operand value =>
      rw [holes_unquoted (Value.wrapped?_eq_some.mpr rfl)]
      exact ⟨rfl, by simp [Hole.Takes]⟩
  | leaf noList =>
      rw [holes_leaf noList]
      exact ⟨rfl, nofun⟩
  | list noHole inside =>
      rw [holes_list (Value.wrapped?_eq_none.mpr noHole)]
      exact inside.fills

theorem SubstitutedItems.fills {items results : List Value} {filled : List (Hole × Value)}
    (substituted : SubstitutedItems items filled results) :
    filled.map Prod.fst = itemHoles items ∧ ∀ entry ∈ filled, entry.1.Takes entry.2 := by
  cases substituted with
  | nil => exact ⟨rfl, nofun⟩
  | noItems operand others =>
      obtain ⟨same, taken⟩ := others.fills
      rw [itemHoles_spliced (Value.wrapped?_eq_some.mpr rfl), List.map_cons, same]
      exact ⟨rfl, List.forall_mem_cons.mpr ⟨fun _ => .inr rfl, taken⟩⟩
  | items operand spliced others =>
      obtain ⟨same, taken⟩ := others.fills
      rw [itemHoles_spliced (Value.wrapped?_eq_some.mpr rfl), List.map_cons, same]
      exact ⟨rfl, List.forall_mem_cons.mpr ⟨fun _ => .inl ⟨spliced, rfl⟩, taken⟩⟩
  | item noHole first others =>
      obtain ⟨same, taken⟩ := first.fills
      obtain ⟨same', taken'⟩ := others.fills
      rw [itemHoles_plain (Value.wrapped?_eq_none.mpr noHole), List.map_append, same, same']
      exact ⟨rfl, List.forall_mem_append.mpr ⟨taken, taken'⟩⟩

end

mutual

/-- A template without holes stands for itself. -/
theorem Substituted.eq_self {template result : Value}
    (substituted : Substituted template [] result) : result = template := by
  cases substituted with
  | leaf => rfl
  | list _ inside => rw [inside.eq_self]

theorem SubstitutedItems.eq_self {items results : List Value}
    (substituted : SubstitutedItems items [] results) : results = items := by
  generalize none : ([] : List (Hole × Value)) = filled at substituted
  cases substituted with
  | nil => rfl
  | noItems => cases none
  | items => cases none
  | item _ first others =>
      obtain ⟨rfl, rfl⟩ := List.append_eq_nil_iff.mp none.symm
      rw [first.eq_self, others.eq_self]

end

theorem Substituted.eq_fill {template result : Value} {filled : List (Hole × Value)}
    (substituted : Substituted template filled result) :
    result = (fill template (filled.map Prod.snd)).1 := by
  have done := substituted.fill_eq []
  rw [List.append_nil] at done
  rw [done]

theorem Substituted.operands_eq {template result : Value} {filled : List (Hole × Value)}
    (substituted : Substituted template filled result) :
    (filled.map fun entry => entry.1.operand) = (holes template).map Hole.operand := by
  rw [← substituted.fills.1, List.map_map]
  rfl

theorem Substituted.forall₂_takes {template result : Value} {filled : List (Hole × Value)}
    (substituted : Substituted template filled result) :
    List.Forall₂ Hole.Takes (holes template) (filled.map Prod.snd) := by
  obtain ⟨same, taken⟩ := substituted.fills
  rw [← same, List.forall₂_map_left_iff, List.forall₂_map_right_iff]
  exact List.forall₂_same.mpr taken

/-- For any values that fill the holes of a template there is one result. -/
theorem existsUnique_substituted {template : Value} {values : List Value}
    (taken : List.Forall₂ Hole.Takes (holes template) values) :
    ∃! result, Substituted template ((holes template).zip values) result := by
  refine ⟨_, substituted_fill template taken, fun result substituted => ?_⟩
  rw [substituted.eq_fill, List.map_snd_zip (Nat.le_of_eq taken.length_eq.symm)]

end Template

end Lisp
