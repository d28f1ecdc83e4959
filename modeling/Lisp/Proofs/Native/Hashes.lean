import Lisp.Native.Reply
import Lisp.Proofs.Reader.Grammar

/-! Hashes from forms. The forms between curly brackets denote the hash that a call of `hash-map` with
the same values gives, and what programs see of it depends only on the mapping that it stands for. -/

set_option autoImplicit false

namespace Lisp

namespace Native

theorem keyArgument_ok_iff {operation : Native} {v : Value} {key : String} :
    keyArgument operation v = .ok key ↔ v.key? = some key := by
  cases v <;> simp [keyArgument, Value.key?]

/-- On forms that come in pairs the two ways to collect entries take the same forms for keys. -/
theorem entryArguments_ok_iff {items : List Value} {pairs : List (String × Value)}
    (even : items.length % 2 = 0) :
    entryArguments items = .ok pairs ↔ keyedPairs items = .ok pairs := by
  -- A form that is left over is an error to the reader alone, hence the parity.
  induction items using keyedPairs.induct generalizing pairs with
  | case1 => simp [entryArguments, keyedPairs]
  | case2 v => cases even
  | case3 k v rest noKey =>
      cases denoted : keyArgument hashMap k with
      | error cause => simp [entryArguments, keyedPairs, denoted, noKey]
      | ok key =>
          rw [keyArgument_ok_iff.mp denoted] at noKey
          cases noKey
  | case4 k v rest key found ih =>
      have evenRest : rest.length % 2 = 0 := by
        rw [List.length_cons, List.length_cons] at even
        omega
      have agree (others : List (String × Value)) :
          entryArguments rest = .ok others ↔ keyedPairs rest = .ok others := ih evenRest
      simp only [entryArguments, keyedPairs, keyArgument_ok_iff.mpr found, found]
      cases collected : entryArguments rest with
      | error cause =>
          cases paired : keyedPairs rest with
          | error fault => simp [Except.map]
          | ok others => simp [(agree others).mpr paired] at collected
      | ok others => simp [(agree others).mp collected, Except.map]

theorem buildHash_ok_iff {items : List Value} {value : Value} :
    buildHash items = .ok value ↔
      ∃ pairs, Keyed items pairs ∧ value = .hash none (Dict.ofList pairs) := by
  rw [buildHash]
  constructor
  · intro built
    split at built
    · cases built
    · next even =>
        cases collected : entryArguments items with
        | error cause =>
            rw [collected] at built
            cases built
        | ok pairs =>
            rw [collected] at built
            cases built
            have paired := (entryArguments_ok_iff (by omega)).mp collected
            exact ⟨pairs, keyedPairs_ok.mp paired, rfl⟩
  · intro keyed
    obtain ⟨pairs, keyed, rfl⟩ := keyed
    have even := keyed.even_length
    rw [if_neg (by omega), (entryArguments_ok_iff even).mpr (keyedPairs_ok.mpr keyed)]
    rfl

end Native

def Value.IsHash (v : Value) : Prop :=
  ∃ record entries, v = .hash record entries

theorem hashMap_reply_iff {items : List Value} {value : Value} :
    value.IsHash ∧ Native.hashMap.reply items = .value value ↔ hashLiteral items = .ok value := by
  rw [hashLiteral_ok, ← Native.buildHash_ok_iff]
  change value.IsHash ∧ Native.Reply.ofAnswer (Native.buildHash items) = .value value ↔ _
  constructor
  · intro replied
    obtain ⟨⟨record, entries, rfl⟩, replied⟩ := replied
    cases built : Native.buildHash items with
    | error cause =>
        rw [built] at replied
        cases replied
    | ok v =>
        rw [built] at replied
        cases replied
        rfl
  · intro built
    obtain ⟨pairs, -, rfl⟩ := Native.buildHash_ok_iff.mp built
    exact ⟨⟨none, _, rfl⟩, by rw [built]; rfl⟩

/-! ## What programs see of a hash -/

/-- Through the hash programs see the mapping: `keys` lists each key that has a value once, in ascending
order, `count` tells how many these are, and `get` gives the value of a key, or nil. -/
structure Value.Shows (hash : Value) (mapping : String → Option Value) : Prop where
  keys : ∃ names : List String, names.Pairwise (· < ·) ∧
    (∀ name, name ∈ names ↔ (mapping name).isSome) ∧
    Native.keys.reply [hash] = .value (.list (names.map .string)) ∧
    Native.count.reply [hash] = .value (.number (Float.ofNat names.length))
  get : ∀ key name, Value.key? key = some name →
    Native.get.reply [hash, key] = .value ((mapping name).getD .nil)

/-- No operation on hashes tells the two values apart. -/
structure Value.SeenAlike (v w : Value) : Prop where
  count : Native.count.reply [v] = Native.count.reply [w]
  keys : Native.keys.reply [v] = Native.keys.reply [w]
  get : ∀ key, Native.get.reply [v, key] = Native.get.reply [w, key]

theorem seenAlike_hash (record record' : Option String) (entries : Dict Value) :
    (Value.hash record entries).SeenAlike (.hash record' entries) :=
  ⟨rfl, rfl, fun _ => rfl⟩

theorem reply_get_of_key {key : Value} {name : String} (named : key.key? = some name)
    (record : Option String) (entries : Dict Value) :
    Native.get.reply [.hash record entries, key] = .value ((entries.get? name).getD .nil) := by
  have denoted : Native.keyArgument .get key = .ok name := Native.keyArgument_ok_iff.mpr named
  simp [Native.reply, Native.valueAt, Native.hashArgument, denoted, Except.map,
    Native.Reply.ofAnswer]

theorem shows_hash {entries : Dict Value} (ascending : entries.Ascending) (record : Option String) :
    (Value.hash record entries).Shows entries.get? where
  keys := ⟨entries.keys, List.pairwise_map.mpr ascending, fun _ => Dict.mem_keys_iff, rfl, by
    simp [Native.reply, Native.size, Native.sizeArgument, Except.map, Native.Reply.ofAnswer,
      Dict.keys]⟩
  get _ _ named := reply_get_of_key named record entries

theorem reply_struct_of_key {key : Value} {name : String} (named : key.key? = some name)
    (record : Option String) (entries : Dict Value) :
    Native.struct.reply [key, .hash record entries] = .value (.hash (some name) entries) := by
  have denoted : Native.keyArgument .struct key = .ok name := Native.keyArgument_ok_iff.mpr named
  simp [Native.reply, Native.toRecord, Native.hashArgument, denoted, Except.map,
    Native.Reply.ofAnswer]

/-- A hash made from pairs is settled by the last pair with each key. -/
structure Value.HashOf (hash : Value) (pairs : List (String × Value)) : Prop where
  shows : hash.Shows (lastValue? pairs)
  /-- There is one way to list the entries in the order of their keys. -/
  listed : ∃ entries, hash = .hash none entries ∧ ∀ listing : List (String × Value),
    listing.Perm entries → (listing.Pairwise fun first second => first.1 ≤ second.1) →
      listing = entries
  record : ∀ key name, Value.key? key = some name →
    ∃ named, Native.struct.reply [key, hash] = .value named ∧ named.SeenAlike hash
  reordered : (pairs.map Prod.fst).Nodup → ∀ items pairs', Keyed items pairs' → pairs'.Perm pairs →
    ∃ other, hashLiteral items = .ok other ∧ other.SeenAlike hash ∧ other.render = hash.render ∧
      ∀ w, other.same w = hash.same w

theorem hashOf_ofList (pairs : List (String × Value)) :
    (Value.hash none (Dict.ofList pairs)).HashOf pairs where
  shows := by
    have shown := shows_hash (Dict.ascending_ofList pairs) none
    rwa [funext (get?_ofList pairs)] at shown
  listed := ⟨_, rfl, fun _ perm sorted => (Dict.ascending_ofList pairs).eq_of_perm perm sorted⟩
  record _ _ named := ⟨_, reply_struct_of_key named none _, seenAlike_hash _ none _⟩
  reordered distinct items pairs' keyed perm := by
    refine ⟨_, hashLiteral_ok.mpr ⟨pairs', keyed, rfl⟩, ?_⟩
    rw [Dict.ofList_perm distinct perm]
    exact ⟨seenAlike_hash none none _, rfl, fun _ => rfl⟩

/-- The forms between curly brackets denote a hash just when `hash-map` gives one for them, and then it
is the same: the one in which each key has the value of its last occurrence. -/
theorem hashLiteral_iff_hashMap (items : List Value) :
    (∀ value, hashLiteral items = .ok value ↔
      value.IsHash ∧ Native.hashMap.reply items = .value value) ∧
    ∀ value, hashLiteral items = .ok value → ∃ pairs, Keyed items pairs ∧ value.HashOf pairs := by
  refine ⟨fun value => hashMap_reply_iff.symm, fun value denotes => ?_⟩
  obtain ⟨pairs, keyed, rfl⟩ := hashLiteral_ok.mp denotes
  exact ⟨pairs, keyed, hashOf_ofList pairs⟩

/-- The string and the symbol `a` are one key. -/
private def repeatedForms : List Value :=
  [.symbol "b", .nil, .string "a", .bool true, .symbol "a", .list [.symbol "x"]]

private def repeatedHash : Value :=
  .hash none [("a", .list [.symbol "x"]), ("b", .nil)]

theorem hashLiteral_iff_hashMap_repeated :
    (hashLiteral repeatedForms = .ok repeatedHash ∧
      Native.hashMap.reply repeatedForms = .value repeatedHash ∧
      Native.get.reply [repeatedHash, .symbol "a"] = .value (.list [.symbol "x"]) ∧
      Native.get.reply [repeatedHash, .string "c"] = .value .nil) ∧
    hashLiteral [.string "b", .nil, .symbol "a", .bool true] =
        .ok (.hash none [("a", .bool true), ("b", .nil)]) ∧
      ∃ other, hashLiteral [.symbol "a", .bool true, .symbol "b", .nil] = .ok other ∧
        other.SeenAlike (.hash none [("a", .bool true), ("b", .nil)]) := by
  constructor
  · have denotes : hashLiteral repeatedForms = .ok repeatedHash := rfl
    obtain ⟨same, settled⟩ := hashLiteral_iff_hashMap repeatedForms
    obtain ⟨pairs, keyed, hash⟩ := settled repeatedHash denotes
    obtain rfl : [("b", .nil), ("a", .bool true), ("a", .list [.symbol "x"])] = pairs :=
      Except.ok.inj (keyedPairs_ok.mpr keyed)
    exact ⟨denotes, ((same _).mp denotes).2, hash.shows.get (.symbol "a") "a" rfl,
      hash.shows.get (.string "c") "c" rfl⟩
  · have denotes : hashLiteral [.string "b", .nil, .symbol "a", .bool true] =
        .ok (.hash none [("a", .bool true), ("b", .nil)]) := rfl
    obtain ⟨pairs, keyed, hash⟩ := (hashLiteral_iff_hashMap _).2 _ denotes
    obtain rfl : [("b", .nil), ("a", .bool true)] = pairs :=
      Except.ok.inj (keyedPairs_ok.mpr keyed)
    obtain ⟨other, built, alike, -⟩ := hash.reordered (by decide) _ _
      (.symbol "a" (.bool true) (.symbol "b" .nil .nil)) (.swap _ _ [])
    exact ⟨denotes, other, built, alike⟩

end Lisp
