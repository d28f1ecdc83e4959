import Lisp.Proofs.Value.RoundTrip

/-! When two values are the same. Values other than nil are compared by their types and printed
forms, which tells all data apart. One list that is not empty is printed like the empty one, and
only there sameness fails to be an equivalence. -/

set_option autoImplicit false

namespace Lisp

/-! ## Printed forms -/

theorem Number.toText_ne_empty (x : Float) : toText x ≠ "" := by
  cases magnitude : magnitude? x with
  | some b =>
      obtain ⟨c, rest, shape, -⟩ := (positional_value (shortest b)).cons_of
      intro empty
      have text := toText_toList magnitude
      rw [empty, shape] at text
      cases negative : isNegative x <;> simp [negative] at text
  | none =>
      rw [toText, magnitude]
      split_ifs <;> simp

namespace Value

theorem render_list (items : List Value) :
    (Value.list items).render.toList =
      '(' :: ([' '].intercalate ((renderItems items).map String.toList) ++ [')']) := by
  rw [render]
  simp

theorem brace_mem_render (name : Option String) (entries : List (String × Value)) :
    '\x7b' ∈ (Value.hash name entries).render.toList := by
  rw [render]
  simp

theorem render_eq_empty {v : Value} : v.render = "" ↔ v = .symbol "" := by
  constructor
  · intro empty
    cases v with
    | nil => simp [render] at empty
    | bool b => cases b <;> simp [render] at empty
    | number x => exact absurd empty (Number.toText_ne_empty x)
    | string s => simp [render, Text.quote] at empty
    | char c => simp [render] at empty
    | symbol name => rw [← empty, render]
    | error cause => simp [render] at empty
    | list items => simp [render] at empty
    | hash name entries => simp [render] at empty
    | procedure p =>
        obtain ⟨callable, isMacro⟩ := p
        cases callable with
        | native operation => simp [render, Procedure.render] at empty
        | closure c => cases isMacro <;> simp [render, Procedure.render] at empty
  · rintro rfl
    rfl

/-- The list of the symbol without a name. -/
def nameless : Value :=
  .list [.symbol ""]

theorem render_list_eq_empty {items : List Value} :
    (Value.list items).render = "()" ↔ items = [] ∨ Value.list items = nameless := by
  rw [← String.toList_inj, render_list]
  rcases items with _ | ⟨first, _ | ⟨second, rest⟩⟩
  · simp [renderItems]
  · simp [renderItems, nameless, render_eq_empty]
  · constructor
    · intro same
      have lengths := congrArg List.length same
      simp [renderItems] at lengths
      omega
    · simp [nameless]

/-! ## Equivalence -/

theorem same_iff {v w : Value} :
    v.same w = true ↔ v.isNil = true ∧ w.isNil = true ∨
      v.typeName = w.typeName ∧ v.render = w.render := by
  simp [same]

theorem isNil_iff {v : Value} : v.isNil = true ↔ v = .nil ∨ v = .list [] := by
  cases v with
  | list items => simp [isNil]
  | _ => simp [isNil]

theorem same_self (v : Value) : v.same v = true :=
  same_iff.mpr (.inr ⟨rfl, rfl⟩)

theorem same_symm {v w : Value} (same : v.same w = true) : w.same v = true := by
  rw [same_iff] at same ⊢
  exact same.imp And.symm fun ⟨types, texts⟩ => ⟨types.symm, texts.symm⟩

theorem same_of_isNil {v w : Value} (nil : v.isNil = true) (nil' : w.isNil = true) :
    v.same w = true :=
  same_iff.mpr (.inl ⟨nil, nil'⟩)

theorem same_trans_of_not_isNil {u v w : Value} (notNil : v.isNil = false)
    (first : u.same v = true) (second : v.same w = true) : u.same w = true := by
  rcases same_iff.mp first with ⟨-, nil⟩ | ⟨types, texts⟩
  · rw [notNil] at nil
    cases nil
  · rcases same_iff.mp second with ⟨nil, -⟩ | ⟨types', texts'⟩
    · rw [notNil] at nil
      cases nil
    · exact same_iff.mpr (.inr ⟨types.trans types', texts.trans texts'⟩)

theorem same_comm (v w : Value) : v.same w = w.same v :=
  Bool.eq_iff_iff.mpr ⟨same_symm, same_symm⟩

theorem isNil_of_same_nil {w : Value} (same : Value.nil.same w = true) : w.isNil = true := by
  rcases same_iff.mp same with ⟨-, nil⟩ | ⟨types, texts⟩
  · exact nil
  · cases w with
    | nil => rfl
    | hash name entries =>
        have brace := brace_mem_render name entries
        rw [← texts] at brace
        simp [render] at brace
    | procedure p => rcases p with ⟨callable, _ | _⟩ <;> simp [typeName] at types
    | _ => simp [typeName] at types

/-- Only one list but the empty one is the same as the empty one. -/
theorem isNil_of_same_empty {w : Value} (same : (Value.list []).same w = true) :
    w.isNil = true ∨ w = nameless := by
  rcases same_iff.mp same with ⟨-, nil⟩ | ⟨types, texts⟩
  · exact .inl nil
  · have empty : w.render = "()" := by
      rw [← texts]
      rfl
    cases w with
    | list items =>
        refine (render_list_eq_empty.mp empty).imp (fun none => ?_) id
        rw [none]
        rfl
    | hash name entries =>
        have brace := brace_mem_render name entries
        rw [empty] at brace
        simp at brace
    | procedure p => rcases p with ⟨callable, _ | _⟩ <;> simp [typeName] at types
    | _ => simp [typeName] at types

theorem isNil_of_same_isNil {v w : Value} (nil : v.isNil = true) (same : v.same w = true) :
    w.isNil = true ∨ w = nameless := by
  rcases isNil_iff.mp nil with rfl | rfl
  · exact .inl (isNil_of_same_nil same)
  · exact isNil_of_same_empty same

/-- Of the values that are the same as the empty list, nil alone differs from the other list. -/
theorem same_nameless {v : Value} (nil : v.isNil = true) :
    v.same nameless = false ↔ v = .nil := by
  rcases isNil_iff.mp nil with rfl | rfl
  · exact ⟨fun _ => rfl, fun _ => rfl⟩
  · exact ⟨nofun, nofun⟩

/-- Sameness is an equivalence, but that nil and the list of the nameless symbol, both the same as
the empty list, are not the same as each other. -/
theorem same_equivalence (u v w : Value) :
    u.same u = true ∧ (u.same v = true → v.same u = true) ∧
      (u.same v = true → v.same w = true →
        (u.same w = false ↔ u = .nil ∧ w = nameless ∨ u = nameless ∧ w = .nil)) := by
  refine ⟨same_self u, same_symm, fun first second => ?_⟩
  cases nil : v.isNil with
  | false =>
      have same := same_trans_of_not_isNil nil first second
      have left : u ≠ .nil := by
        rintro rfl
        rw [isNil_of_same_nil first] at nil
        cases nil
      have right : w ≠ .nil := by
        rintro rfl
        rw [isNil_of_same_nil (same_symm second)] at nil
        cases nil
      simp [same, left, right]
  | true =>
      have distinct : ∀ {x : Value}, x.isNil = true → x ≠ nameless := by
        rintro x isNil rfl
        cases isNil
      have named : nameless ≠ .nil := nofun
      rcases isNil_of_same_isNil nil (same_symm first) with left | rfl <;>
        rcases isNil_of_same_isNil nil second with right | rfl
      · simp [same_of_isNil left right, distinct left, distinct right]
      · simp [same_nameless left, distinct left]
      · simp [same_comm nameless w, same_nameless right, distinct right]
      · simp [same_self, named]

/-- The empty list is the same as nil and as the list of the nameless symbol. -/
theorem not_transitive_same :
    Value.nil.same (.list []) = true ∧ (Value.list []).same nameless = true ∧
      Value.nil.same nameless = false :=
  ⟨rfl, rfl, rfl⟩

end Value

/-! ## Data -/

/-- Square brackets in the place of round ones. Lists in them are never read as definitions. -/
def TokenKind.squared : TokenKind → TokenKind
  | opening .round => .opening .square
  | closing .round => .closing .square
  | kind => kind

/-- The tokens derive only one expression. -/
theorem Derives.form_unique {v w : Value} {ks : List TokenKind} (first : Derives (.form v) ks)
    (second : Derives (.form w) ks) : v = w := by
  have shown : kinds (ks.map fun kind => ⟨kind, .zero⟩) = ks := by
    rw [kinds, List.map_map]
    exact List.map_id ks
  rw [← shown] at first second
  have same := (readOne_of_derives first []).symm.trans (readOne_of_derives second [])
  simpa using same

theorem Spelled.squared {v : Value} (spelled : Spelled v) (noList : ∀ items, v ≠ .list items)
    (noHash : ∀ name entries, v ≠ .hash name entries) : ReadsThrough .squared v v := by
  obtain ⟨ks, lexes, derived⟩ := spelled
  refine ⟨ks, lexes, ?_⟩
  cases derived with
  | atom text => exact .atom text
  | string shape denotes => exact .string shape denotes
  | bracketed content encloses =>
      cases encloses with
      | round | square => exact absurd rfl (noList _)
      | curly => exact absurd rfl (noHash _ _)
  | marked marker content => exact absurd rfl (noList _)

theorem readsThrough_squared {v : Value} (readable : Readable v) : ReadsThrough .squared v v := by
  induction readable with
  | nil =>
      have spelled : Spelled .nil := spelled_of_atom rfl rfl (List.all_eq_true.mp rfl) rfl
      exact spelled.squared nofun nofun
  | bool b =>
      have spelled : Spelled (.bool b) := by
        cases b <;> exact spelled_of_atom rfl rfl (List.all_eq_true.mp rfl) rfl
      exact spelled.squared nofun nofun
  | number finite => exact (spelled_number finite).squared nofun nofun
  | string s => exact (spelled_string s).squared nofun nofun
  | symbol single classified => exact (spelled_symbol single classified).squared nofun nofun
  | @list items all ih =>
      refine readsThrough_list ih rfl rfl ?_
      rw [List.map_id']
      exact .square items
  | @hash entries ascending all ih =>
      have reads := @readsThrough_hash .squared id entries ascending (fun _ => rfl) rfl rfl ih
      have kept : entries.map (fun entry => (entry.1, id entry.2)) = entries := List.map_id entries
      rwa [kept] at reads

theorem ReadsThrough.derives {change : TokenKind → TokenKind} {v w : Value}
    (reads : ReadsThrough change v w) :
    Derives (.form w) ((kinds (tokenize v.render)).map change) := by
  obtain ⟨ks, lexes, derived⟩ := reads
  have alone : lexemes (v.render.toList ++ []) = ks ++ [] := lexes [] delimited_nil
  rw [List.append_nil, List.append_nil] at alone
  rwa [kinds_tokenize, alone]

/-- Data is determined by its printed form. -/
theorem Readable.eq_of_render {v w : Value} (readable : Readable v) (readable' : Readable w)
    (same : v.render = w.render) : v = w := by
  have first := (readsThrough_squared readable).derives
  rw [same] at first
  exact first.form_unique (readsThrough_squared readable').derives

/-- Data is the same just when it is equal, numbers bit by bit and hashes entry by entry. Only
where they stand by themselves, nil and the empty list are the same as well. -/
theorem same_iff_eq {v w : Value} (readable : Readable v) (readable' : Readable w) :
    v.same w = true ↔ v = w ∨ v.isNil = true ∧ w.isNil = true := by
  rw [Value.same_iff, or_comm]
  refine or_congr_left ⟨fun ⟨_, texts⟩ => readable.eq_of_render readable' texts, ?_⟩
  rintro rfl
  exact ⟨rfl, rfl⟩

/-- What would be read as a definition, with `inner` and `x` in it. -/
private def signature (inner : Value) (x : Float) : Value :=
  .list [.symbol "define", .list [.symbol "f"], inner, .hash none [("k\"", .number x)]]

private theorem readable_signature {inner : Value} {x : Float} (readable : Readable inner)
    (finite : Number.isFinite x = true) : Readable (signature inner x) := by
  have keyword : Readable (.symbol "define") := .symbol rfl rfl
  have name : Readable (.symbol "f") := .symbol rfl rfl
  have names : Readable (.list [.symbol "f"]) := .list (List.forall_mem_singleton.mpr name)
  have entry : Readable (.hash none [("k\"", .number x)]) :=
    .hash (List.pairwise_singleton _ _) (List.forall_mem_singleton.mpr (.number finite))
  exact .list (by simp [keyword, names, readable, entry])

/-- Inside a list nil and the empty list differ, and so do the two zeros. -/
theorem same_iff_eq_signature :
    Readable (signature .nil (.ofBits 0)) ∧
      Readable (signature (.list []) (.ofBits 0x8000000000000000)) ∧
      ((signature .nil (.ofBits 0)).same (signature (.list []) (.ofBits 0x8000000000000000)) = true ↔
        signature .nil (.ofBits 0) = signature (.list []) (.ofBits 0x8000000000000000) ∨
          (signature .nil (.ofBits 0)).isNil = true ∧
            (signature (.list []) (.ofBits 0x8000000000000000)).isNil = true) := by
  have first : Readable (signature .nil (.ofBits 0)) :=
    readable_signature .nil (by decide +kernel)
  have second : Readable (signature (.list []) (.ofBits 0x8000000000000000)) :=
    readable_signature (.list nofun) (by decide +kernel)
  exact ⟨first, second, same_iff_eq first second⟩

end Lisp
