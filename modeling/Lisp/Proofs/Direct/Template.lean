import Lisp.Proofs.Direct.Rules

/-! Copying a template while its holes are evaluated gives the same as evaluating all holes first
and filling the template afterwards. -/

set_option autoImplicit false

namespace Lisp

namespace Value

theorem wrapped?_eq_some {keyword : String} {v operand : Value} :
    v.wrapped? keyword = some operand ↔ v = .list [.symbol keyword, operand] := by
  constructor
  · intro found
    rw [wrapped?.eq_def] at found
    split at found
    · split at found
      · next same =>
          cases found
          rw [same]
      · cases found
    · cases found
  · intro shape
    rw [shape]
    exact if_pos rfl

theorem wrapped?_eq_none {keyword : String} {v : Value} :
    v.wrapped? keyword = none ↔ ∀ operand, v ≠ .list [.symbol keyword, operand] := by
  simp only [Option.eq_none_iff_forall_ne_some, ne_eq, wrapped?_eq_some]

end Value

namespace Template

theorem holes_unquoted {template operand : Value} (unquoted : template.unquoted? = some operand) :
    holes template = [⟨.value, operand⟩] := by
  rw [holes.eq_def, unquoted]

theorem holes_list {items : List Value} (plain : (Value.list items).unquoted? = none) :
    holes (.list items) = itemHoles items := by
  rw [holes, plain]

theorem holes_leaf {template : Value} (leaf : ∀ items, template ≠ .list items) :
    holes template = [] := by
  cases template with
  | list items => exact absurd rfl (leaf items)
  | _ => rfl

theorem fill_unquoted {template operand : Value} (unquoted : template.unquoted? = some operand)
    (values : List Value) : fill template values = next values := by
  rw [fill.eq_def, unquoted]

theorem fill_list {items : List Value} (plain : (Value.list items).unquoted? = none)
    (values : List Value) :
    fill (.list items) values = (.list (fillItems items values).1, (fillItems items values).2) := by
  rw [fill, plain]

theorem fill_leaf {template : Value} (leaf : ∀ items, template ≠ .list items)
    (values : List Value) : fill template values = (template, values) := by
  cases template with
  | list items => exact absurd rfl (leaf items)
  | _ => rfl

theorem itemHoles_spliced {item operand : Value} (spliced : item.spliced? = some operand)
    (rest : List Value) : itemHoles (item :: rest) = ⟨.splice, operand⟩ :: itemHoles rest := by
  rw [itemHoles, spliced]

theorem itemHoles_plain {item : Value} (plain : item.spliced? = none) (rest : List Value) :
    itemHoles (item :: rest) = holes item ++ itemHoles rest := by
  rw [itemHoles, plain]

theorem next_cons (value : Value) (values : List Value) : next (value :: values) = (value, values) :=
  rfl

theorem fillItems_spliced {item operand : Value} (spliced : item.spliced? = some operand)
    (rest values : List Value) :
    fillItems (item :: rest) values =
      ((next values).1.spliceItems?.getD [] ++ (fillItems rest (next values).2).1,
        (fillItems rest (next values).2).2) := by
  simp only [fillItems, spliced]

theorem fillItems_plain {item : Value} (plain : item.spliced? = none)
    (rest values : List Value) :
    fillItems (item :: rest) values =
      ((fill item values).1 :: (fillItems rest (fill item values).2).1,
        (fillItems rest (fill item values).2).2) := by
  simp only [fillItems, plain]

private theorem fill_append_leaf {template : Value} (leaf : ∀ items, template ≠ .list items)
    {values more : List Value} (enough : values.length = (holes template).length) :
    fill template (values ++ more) = ((fill template values).1, more) := by
  rw [holes_leaf leaf] at enough
  obtain rfl := List.length_eq_zero_iff.mp enough
  rw [fill_leaf leaf, fill_leaf leaf]
  rfl

mutual

/-- Filling takes one value for each hole and leaves the others. -/
theorem fill_append (template : Value) (values more : List Value)
    (enough : values.length = (holes template).length) :
    fill template (values ++ more) = ((fill template values).1, more) := by
  match template with
  | .nil | .bool _ | .number _ | .string _ | .char _ | .symbol _ | .error _ | .hash _ _
  | .procedure _ => exact fill_append_leaf (by simp) enough
  | .list items =>
      cases unquoted : (Value.list items).unquoted? with
      | some operand =>
          rw [holes_unquoted unquoted] at enough
          obtain ⟨value, rfl⟩ := List.length_eq_one_iff.mp enough
          rw [fill_unquoted unquoted, fill_unquoted unquoted]
          rfl
      | none =>
          rw [holes_list unquoted] at enough
          rw [fill_list unquoted, fill_list unquoted, fillItems_append items values more enough]

theorem fillItems_append (items values more : List Value)
    (enough : values.length = (itemHoles items).length) :
    fillItems items (values ++ more) = ((fillItems items values).1, more) := by
  match items with
  | [] =>
      obtain rfl := List.length_eq_zero_iff.mp enough
      rfl
  | item :: rest =>
      cases spliced : item.spliced? with
      | some operand =>
          rw [itemHoles_spliced spliced] at enough
          match values with
          | value :: values =>
              have filled := fillItems_append rest values more (Nat.succ.inj enough)
              rw [List.cons_append, fillItems_spliced spliced, fillItems_spliced spliced, next_cons,
                next_cons, filled]
      | none =>
          rw [itemHoles_plain spliced, List.length_append] at enough
          have split : values = values.take (holes item).length ++ values.drop (holes item).length :=
            (List.take_append_drop _ _).symm
          have front : (values.take (holes item).length).length = (holes item).length := by
            rw [List.length_take]; omega
          have back : (values.drop (holes item).length).length = (itemHoles rest).length := by
            rw [List.length_drop]; omega
          rw [split]
          generalize values.take (holes item).length = first at front
          generalize values.drop (holes item).length = second at back
          rw [fillItems_plain spliced, fillItems_plain spliced, List.append_assoc,
            fill_append item first (second ++ more) front, fill_append item first second front,
            fillItems_append rest second more back]

end

end Template

namespace Direct

variable (recur : Recursion)

/-- What the value of a hole has to be for the template to be filled. -/
def checkHole (kind : HoleKind) (value : Value) : Except EvalError Unit :=
  match kind with
  | .value => .ok ()
  | .splice => (splicedItems value).map fun _ => ()

/-- The values of holes, evaluated from left to right; the first splice of anything but a list is
an error. -/
def holeValues : List Hole → FrameId → Run (Except EvalError (List Value))
  | [], _ => pure (.ok [])
  | hole :: rest, frame => do
    let value ← recur.nested hole.operand frame
    match checkHole hole.kind value with
    | .error cause => pure (.error cause)
    | .ok _ => do
      let others ← holeValues rest frame
      pure (others.map (value :: ·))

/-- A template whose holes have the outcome `values`. -/
def filled (template : Value) (values : Except EvalError (List Value)) : Except EvalError Value :=
  values.map fun values => (Template.fill template values).1

theorem splicedItems_ok {value : Value} {items : List Value}
    (accepted : splicedItems value = .ok items) : value.spliceItems? = some items := by
  cases found : value.spliceItems? with
  | some other => simpa [splicedItems, found] using accepted
  | none => cases value <;> simp [splicedItems, found] at accepted

theorem holeValues_length {holes : List Hole} {frame : FrameId} {store after : Store}
    {values : List Value} (ended : holeValues recur holes frame store = some (.ok values, after)) :
    values.length = holes.length := by
  induction holes generalizing store values with
  | nil =>
      cases ended
      rfl
  | cons hole rest ih =>
      obtain ⟨value, middle, -, continued⟩ := bind_eq_some ended
      cases checked : checkHole hole.kind value with
      | error cause => simp [checked, pure_apply] at continued
      | ok _ =>
          simp only [checked] at continued
          obtain ⟨others, last, ran, finished⟩ := bind_eq_some continued
          cases others with
          | error cause => cases finished
          | ok others =>
              cases finished
              rw [List.length_cons, List.length_cons, ih ran]

theorem holeValues_append (first second : List Hole) (frame : FrameId) (store : Store) :
    holeValues recur (first ++ second) frame store =
      (do
        match ← holeValues recur first frame with
        | .error cause => pure (.error cause)
        | .ok values => do
          let others ← holeValues recur second frame
          pure (others.map (values ++ ·)) : Run (Except EvalError (List Value))) store := by
  induction first generalizing store with
  | nil =>
      simp only [List.nil_append, holeValues, bind_apply, pure_apply, Option.bind_some]
      cases holeValues recur second frame store with
      | none => rfl
      | some result =>
          obtain ⟨others, last⟩ := result
          cases others <;> rfl
  | cons hole rest ih =>
      simp only [List.cons_append, holeValues, bind_apply]
      cases recur.nested hole.operand frame store with
      | none => rfl
      | some result =>
          obtain ⟨value, middle⟩ := result
          simp only [Option.bind_some]
          cases checked : checkHole hole.kind value with
          | error cause => rfl
          | ok _ =>
              simp only [bind_apply, ih]
              cases holeValues recur rest frame middle with
              | none => rfl
              | some result =>
                  obtain ⟨values, next⟩ := result
                  cases values with
                  | error cause => rfl
                  | ok values =>
                      simp only [Option.bind_some, bind_apply, pure_apply, Except.map]
                      cases holeValues recur second frame next with
                      | none => rfl
                      | some result =>
                          obtain ⟨others, last⟩ := result
                          cases others <;> rfl

/-- The items of a list whose holes have the outcome `values`. -/
def filledItems (items : List Value) (values : Except EvalError (List Value)) :
    Except EvalError (List Value) :=
  values.map fun values => (Template.fillItems items values).1

private theorem template_leaf {form : Value} (leaf : ∀ items, form ≠ .list items) (frame : FrameId) :
    template recur form frame =
      (do
        let values ← holeValues recur (Template.holes form) frame
        pure (filled form values)) := by
  rw [Template.holes_leaf leaf]
  cases form with
  | list items => exact absurd rfl (leaf items)
  | _ => rfl

mutual

/-- Holes may be evaluated before the template is filled. -/
theorem template_eq (form : Value) (frame : FrameId) (store : Store) :
    template recur form frame store =
      (do
        let values ← holeValues recur (Template.holes form) frame
        pure (filled form values) : Run (Except EvalError Value)) store := by
  match form with
  | .nil | .bool _ | .number _ | .string _ | .char _ | .symbol _ | .error _ | .hash _ _
  | .procedure _ => rw [template_leaf recur (by simp)]
  | .list items =>
      cases unquoted : (Value.list items).unquoted? with
      | some operand =>
          rw [template, unquoted, Template.holes_unquoted unquoted]
          simp only [holeValues, bind_apply]
          cases recur.nested operand frame store with
          | none => rfl
          | some result =>
              simp only [Option.bind_some, checkHole, bind_apply, pure_apply, filled, Except.map,
                Template.fill_unquoted unquoted]
              rfl
      | none =>
          rw [template, unquoted, Template.holes_list unquoted]
          simp only [bind_apply, templateItems_eq items frame store]
          cases holeValues recur (Template.itemHoles items) frame store with
          | none => rfl
          | some result =>
              obtain ⟨values, last⟩ := result
              cases values with
              | error cause => rfl
              | ok values =>
                  simp only [Option.bind_some, pure_apply, filled, filledItems, Except.map,
                    Template.fill_list unquoted]

theorem templateItems_eq (items : List Value) (frame : FrameId) (store : Store) :
    templateItems recur items frame store =
      (do
        let values ← holeValues recur (Template.itemHoles items) frame
        pure (filledItems items values) : Run (Except EvalError (List Value))) store := by
  match items with
  | [] => rfl
  | item :: rest =>
      cases spliced : item.spliced? with
      | some operand =>
          simp only [templateItems, spliced, Template.itemHoles_spliced spliced, holeValues,
            bind_apply]
          cases recur.nested operand frame store with
          | none => rfl
          | some result =>
              obtain ⟨value, middle⟩ := result
              cases accepted : splicedItems value with
              | error cause => simp only [Option.bind_some, checkHole, accepted]; rfl
              | ok items =>
                  simp only [Option.bind_some, checkHole, accepted, Except.map, bind_apply,
                    templateItems_eq rest frame middle]
                  cases holeValues recur (Template.itemHoles rest) frame middle with
                  | none => rfl
                  | some result =>
                      obtain ⟨others, last⟩ := result
                      cases others with
                      | error cause => rfl
                      | ok others =>
                          simp only [Option.bind_some, pure_apply, filledItems, Except.map,
                            Template.fillItems_spliced spliced, Template.next_cons,
                            splicedItems_ok accepted, Option.getD_some]
      | none =>
          simp only [templateItems, spliced, Template.itemHoles_plain spliced, bind_apply,
            template_eq item frame store, holeValues_append]
          cases holed : holeValues recur (Template.holes item) frame store with
          | none => rfl
          | some result =>
              obtain ⟨values, middle⟩ := result
              cases values with
              | error cause => rfl
              | ok values =>
                  have copied := fun more => Template.fill_append item values more
                    (holeValues_length recur holed)
                  simp only [Option.bind_some, pure_apply, filled, Except.map, bind_apply,
                    templateItems_eq rest frame middle]
                  cases holeValues recur (Template.itemHoles rest) frame middle with
                  | none => rfl
                  | some result =>
                      obtain ⟨others, last⟩ := result
                      cases others with
                      | error cause => rfl
                      | ok others =>
                          simp only [Option.bind_some, filledItems, Except.map,
                            Template.fillItems_plain spliced, copied]

end

end Direct

end Lisp
