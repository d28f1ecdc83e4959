import Lisp.Dict
import Mathlib.Order.Basic
import Mathlib.Data.String.Basic

/-! What dictionaries hold after insertions, and how insertion keeps them in order. -/

set_option autoImplicit false

namespace Lisp.Dict

variable {α : Type}

theorem get?_insert_same (d : Dict α) (key : String) (value : α) :
    (d.insert key value).get? key = some value := by
  induction d with
  | nil => simp [insert, get?]
  | cons entry rest ih =>
      obtain ⟨k, v⟩ := entry
      rw [insert]
      split
      · simp [get?]
      · split
        · simp [get?]
        · next distinct => simp [get?, Ne.symm distinct, ih]

theorem get?_insert_other (d : Dict α) {key other : String} (value : α) (distinct : other ≠ key) :
    (d.insert key value).get? other = d.get? other := by
  induction d with
  | nil => simp [insert, get?, distinct.symm]
  | cons entry rest ih =>
      obtain ⟨k, v⟩ := entry
      rw [insert]
      split
      · simp [get?, distinct.symm]
      · split
        · next same => simp [get?, ← same, distinct.symm]
        · simp [get?, ih]

/-- Insertion binds its key and leaves every other key bound or unbound as it was. -/
theorem isSome_get?_insert (d : Dict α) (key other : String) (value : α) :
    ((d.insert key value).get? other).isSome ↔ other = key ∨ (d.get? other).isSome := by
  by_cases same : other = key
  · subst same
    simp [get?_insert_same]
  · simp [get?_insert_other d value same, same]

/-- Of two pairs with one key the later one counts. -/
theorem get?_insertAll (d : Dict α) (pairs : List (String × α)) (key : String) :
    (d.insertAll pairs).get? key =
      ((pairs.reverse.find? fun pair => pair.1 = key).map Prod.snd).or (d.get? key) := by
  induction pairs generalizing d with
  | nil => rfl
  | cons pair rest ih =>
      obtain ⟨k, v⟩ := pair
      have later := ih (d.insert k v)
      rw [insertAll, List.foldl_cons]
      rw [insertAll] at later
      rw [later, List.reverse_cons, List.find?_append]
      by_cases same : k = key
      · subst same
        rw [get?_insert_same]
        cases rest.reverse.find? fun pair => decide (pair.1 = k) <;> simp
      · rw [get?_insert_other d v (Ne.symm same)]
        cases rest.reverse.find? fun pair => decide (pair.1 = key) <;> simp [same]

/-! ## Order -/

theorem mem_of_mem_insert {d : Dict α} {key : String} {value : α} {entry : String × α}
    (present : entry ∈ d.insert key value) : entry = (key, value) ∨ entry ∈ d := by
  induction d with
  | nil => simp_all [insert]
  | cons first rest ih =>
      obtain ⟨k, v⟩ := first
      rw [insert] at present
      split at present
      · rcases List.mem_cons.mp present with rfl | old
        · exact .inl rfl
        · exact .inr old
      · split at present
        · rcases List.mem_cons.mp present with rfl | old
          · exact .inl rfl
          · exact .inr (List.mem_cons_of_mem _ old)
        · rcases List.mem_cons.mp present with rfl | old
          · exact .inr List.mem_cons_self
          · rcases ih old with same | other
            · exact .inl same
            · exact .inr (List.mem_cons_of_mem _ other)

/-- The entries of a dictionary after insertions are among those it had and the pairs inserted. -/
theorem mem_of_mem_insertAll {d : Dict α} {pairs : List (String × α)} {entry : String × α}
    (present : entry ∈ d.insertAll pairs) : entry ∈ pairs ∨ entry ∈ d := by
  induction pairs generalizing d with
  | nil => exact .inr present
  | cons pair rest ih =>
      rcases ih present with later | first
      · exact .inl (List.mem_cons_of_mem _ later)
      · rcases mem_of_mem_insert first with rfl | old
        · exact .inl List.mem_cons_self
        · exact .inr old

theorem mem_of_mem_ofList {pairs : List (String × α)} {entry : String × α}
    (present : entry ∈ ofList pairs) : entry ∈ pairs :=
  (mem_of_mem_insertAll present).resolve_right List.not_mem_nil

/-- Insertion keeps a dictionary in order. -/
theorem Ascending.insert {d : Dict α} (ascending : Ascending d) (key : String) (value : α) :
    Ascending (d.insert key value) := by
  induction d with
  | nil => simp [Dict.insert, Ascending]
  | cons first rest ih =>
      obtain ⟨k, v⟩ := first
      obtain ⟨above, ordered⟩ := List.pairwise_cons.mp ascending
      rw [Dict.insert]
      split
      · next less =>
          refine List.pairwise_cons.mpr ⟨fun entry present => ?_, ascending⟩
          rcases List.mem_cons.mp present with rfl | old
          · exact less
          · exact lt_trans less (above entry old)
      · next notLess =>
          split
          · next same =>
              subst same
              exact List.pairwise_cons.mpr ⟨above, ordered⟩
          · next distinct =>
              refine List.pairwise_cons.mpr ⟨fun entry present => ?_, ih ordered⟩
              rcases mem_of_mem_insert present with rfl | old
              · exact lt_of_le_of_ne (not_lt.mp notLess) (Ne.symm distinct)
              · exact above entry old

theorem ascending_insertAll {d : Dict α} (ascending : Ascending d) (pairs : List (String × α)) :
    Ascending (d.insertAll pairs) := by
  induction pairs generalizing d with
  | nil => exact ascending
  | cons pair rest ih => exact ih (ascending.insert pair.1 pair.2)

/-- The dictionary of a list of pairs is in order, whatever the order of the pairs. -/
theorem ascending_ofList (pairs : List (String × α)) : Ascending (ofList pairs) :=
  ascending_insertAll List.Pairwise.nil pairs

theorem mem_of_get? {d : Dict α} {key : String} {value : α} (found : d.get? key = some value) :
    (key, value) ∈ d := by
  induction d with
  | nil => cases found
  | cons first rest ih =>
      obtain ⟨k, v⟩ := first
      rw [get?] at found
      split at found
      · next same =>
          subst same
          cases found
          exact List.mem_cons_self
      · exact List.mem_cons_of_mem _ (ih found)

private theorem get?_eq_none_of_above {d : Dict α} {key : String}
    (above : ∀ entry ∈ d, key < entry.1) : d.get? key = none := by
  induction d with
  | nil => rfl
  | cons first rest ih =>
      obtain ⟨k, v⟩ := first
      have less : key < k := above (k, v) List.mem_cons_self
      rw [get?, if_neg less.ne', ih fun entry present => above entry (List.mem_cons_of_mem _ present)]

theorem Ascending.get?_of_mem {d : Dict α} (ascending : Ascending d) {entry : String × α}
    (mem : entry ∈ d) : d.get? entry.1 = some entry.2 := by
  induction d with
  | nil => cases mem
  | cons first rest ih =>
      obtain ⟨above, ordered⟩ := List.pairwise_cons.mp ascending
      rcases List.mem_cons.mp mem with rfl | later
      · rw [get?, if_pos rfl]
      · rw [get?, if_neg (above entry later).ne, ih ordered later]

private theorem head_not_less {k k' : String} {v v' : α} {rest rest' : Dict α}
    (ascending : Ascending ((k', v') :: rest'))
    (same : ∀ key, get? ((k, v) :: rest) key = get? ((k', v') :: rest') key) : ¬ k < k' := by
  intro less
  have absent : get? ((k', v') :: rest') k = none := by
    apply get?_eq_none_of_above
    intro entry present
    rcases List.mem_cons.mp present with rfl | later
    · exact less
    · exact lt_trans less ((List.pairwise_cons.mp ascending).1 entry later)
  have found := same k
  rw [absent, get?, if_pos rfl] at found
  cases found

/-- A dictionary is determined by what it stores under each key. -/
theorem Ascending.ext {d e : Dict α} (left : Ascending d) (right : Ascending e)
    (same : ∀ key, d.get? key = e.get? key) : d = e := by
  induction d generalizing e with
  | nil =>
      cases e with
      | nil => rfl
      | cons entry rest => simpa [get?] using same entry.1
  | cons entry rest ih =>
      cases e with
      | nil => simpa [get?] using same entry.1
      | cons entry' rest' =>
          obtain ⟨k, v⟩ := entry
          obtain ⟨k', v'⟩ := entry'
          obtain rfl : k = k' := le_antisymm (not_lt.mp (head_not_less left fun key => (same key).symm))
            (not_lt.mp (head_not_less right same))
          obtain rfl : v = v' := by simpa [get?] using same k
          obtain ⟨above, ordered⟩ := List.pairwise_cons.mp left
          obtain ⟨above', ordered'⟩ := List.pairwise_cons.mp right
          congr 1
          refine ih ordered ordered' fun key => ?_
          by_cases first : k = key
          · subst first
            rw [get?_eq_none_of_above above, get?_eq_none_of_above above']
          · simpa [get?, first] using same key

theorem insert_last {d : Dict α} {key : String} (value : α)
    (below : ∀ entry ∈ d, entry.1 < key) : d.insert key value = d ++ [(key, value)] := by
  induction d with
  | nil => rfl
  | cons first rest ih =>
      obtain ⟨k, v⟩ := first
      have less : k < key := below (k, v) List.mem_cons_self
      rw [insert, if_neg less.not_gt, if_neg (Ne.symm less.ne),
        ih fun entry present => below entry (List.mem_cons_of_mem _ present)]
      rfl

/-- The entries of a dictionary make up that dictionary. -/
theorem Ascending.ofList_eq {d : Dict α} (ascending : Ascending d) : ofList d = d := by
  have grown : ∀ (rest front : Dict α), Ascending (front ++ rest) →
      insertAll front rest = front ++ rest := by
    intro rest
    induction rest with
    | nil => intro front _; exact (List.append_nil front).symm
    | cons entry rest ih =>
        intro front ordered
        have below : ∀ other ∈ front, other.1 < entry.1 := fun other present =>
          (List.pairwise_append.mp ordered).2.2 other present entry List.mem_cons_self
        have next := ih (front ++ [entry]) (by simpa using ordered)
        rw [insertAll, List.foldl_cons, insert_last entry.2 below]
        simpa [insertAll] using next
  exact grown d [] ascending

/-- Of two entries with one key the inserted one counts. -/
theorem Ascending.get?_insertAll {e : Dict α} (ascending : Ascending e) (d : Dict α)
    (key : String) : (Dict.insertAll d e).get? key = (e.get? key).or (d.get? key) := by
  have own := Dict.get?_insertAll [] e key
  have whole : Dict.insertAll [] e = e := ascending.ofList_eq
  rw [whole, get?, Option.or_none] at own
  rw [Dict.get?_insertAll, own]

theorem mem_keys_iff {d : Dict α} {key : String} : key ∈ d.keys ↔ (d.get? key).isSome := by
  induction d with
  | nil => simp [keys, get?]
  | cons first rest ih =>
      obtain ⟨k, v⟩ := first
      rw [keys] at ih
      rw [keys, List.map_cons, List.mem_cons, ih, get?]
      split
      · next same => simp [same]
      · next distinct => simp [Ne.symm distinct]

theorem Ascending.nodup_keys {d : Dict α} (ascending : Ascending d) : d.keys.Nodup :=
  List.pairwise_map.mpr (ascending.imp fun less => less.ne)

/-! ## Dictionaries of pairs -/

theorem mem_keys_ofList {pairs : List (String × α)} {key : String} :
    key ∈ (ofList pairs).keys ↔ key ∈ pairs.map Prod.fst := by
  rw [mem_keys_iff, ofList, get?_insertAll, get?, Option.or_none, Option.isSome_map]
  simp

theorem get?_ofList_last {front back : List (String × α)} {key : String} (value : α)
    (last : key ∉ back.map Prod.fst) :
    (ofList (front ++ (key, value) :: back)).get? key = some value := by
  have later : back.reverse.find? (fun pair => pair.1 = key) = none := by
    refine List.find?_eq_none.mpr fun pair mem => ?_
    rw [decide_eq_true_iff]
    rintro rfl
    exact last (List.mem_map_of_mem (List.mem_reverse.mp mem))
  rw [ofList, insertAll, List.foldl_append, List.foldl_cons, ← insertAll, get?_insertAll, later,
    get?_insert_same]
  rfl

theorem get?_ofList_eq_some_iff {pairs : List (String × α)} {key : String} {value : α}
    (distinct : (pairs.map Prod.fst).Nodup) :
    (ofList pairs).get? key = some value ↔ (key, value) ∈ pairs := by
  constructor
  · intro found
    exact mem_of_mem_ofList (mem_of_get? found)
  · intro mem
    obtain ⟨front, back, rfl⟩ := List.append_of_mem mem
    rw [List.map_append, List.map_cons] at distinct
    exact get?_ofList_last value (List.nodup_cons.mp (List.nodup_append.mp distinct).2.1).1

/-- Pairs with distinct keys make up the same dictionary in every order. -/
theorem ofList_perm {pairs other : List (String × α)} (distinct : (pairs.map Prod.fst).Nodup)
    (perm : other.Perm pairs) : ofList other = ofList pairs := by
  have distinct' : (other.map Prod.fst).Nodup := (perm.map Prod.fst).nodup_iff.mpr distinct
  refine (ascending_ofList other).ext (ascending_ofList pairs) fun key => Option.ext fun value => ?_
  simp only [get?_ofList_eq_some_iff distinct, get?_ofList_eq_some_iff distinct', perm.mem_iff]

/-- However the entries of a dictionary are enumerated, sorting by keys brings them in its order. -/
theorem Ascending.eq_of_perm {d listing : Dict α} (ascending : Ascending d)
    (perm : listing.Perm d) (sorted : listing.Pairwise fun first second => first.1 ≤ second.1) :
    listing = d := by
  have distinct : listing.keys.Nodup := (perm.map Prod.fst).nodup_iff.mpr ascending.nodup_keys
  have ordered : Ascending listing :=
    (sorted.and (List.pairwise_map.mp distinct)).imp fun less => lt_of_le_of_ne less.1 less.2
  rw [← ordered.ofList_eq, ofList_perm ascending.nodup_keys perm, ascending.ofList_eq]

/-! ## Merging -/

/-- Dictionaries merged from the last to the first hold under each key what the first of them that
has the key holds there. -/
theorem get?_foldr_insertAll {β : Type} {entries : β → Dict α}
    (ordered : ∀ x, Ascending (entries x)) (xs : List β) (key : String) :
    (xs.foldr (fun x d => Dict.insertAll d (entries x)) []).get? key =
      xs.findSome? fun x => (entries x).get? key := by
  induction xs with
  | nil => rfl
  | cons x rest ih =>
      rw [List.foldr_cons, (ordered x).get?_insertAll, ih, List.findSome?_cons]
      cases (entries x).get? key <;> rfl

theorem ascending_foldr_insertAll {β : Type} (entries : β → Dict α) (xs : List β) :
    Ascending (xs.foldr (fun x d => Dict.insertAll d (entries x)) []) := by
  induction xs with
  | nil => exact List.Pairwise.nil
  | cons x rest ih => exact ascending_insertAll ih (entries x)

/-- The keys of a dictionary as one without values. -/
theorem ascending_names {d : Dict α} (ascending : Ascending d) :
    Ascending (d.keys.map fun key => (key, ())) := by
  rw [keys, List.map_map]
  exact List.pairwise_map.mpr ascending

theorem isSome_get?_names (d : Dict α) (key : String) :
    (Dict.get? (d.keys.map fun key => (key, ())) key).isSome = (d.get? key).isSome := by
  rw [Bool.eq_iff_iff, ← mem_keys_iff, ← mem_keys_iff, keys, List.map_map]
  exact Iff.of_eq (congrArg _ (List.map_id d.keys))

end Lisp.Dict
