import Lisp.Proofs.Value.RoundTrip

/-! What the reader gives is data, and when its printed form is read as the same data. -/

set_option autoImplicit false

namespace Lisp

/-! ## Fixed points of rereading -/

/-- How many lists lie inside each other at the very front of a value. -/
def Value.headDepth : Value → Nat
  | .list (first :: _) => first.headDepth + 1
  | _ => 0

theorem expandDefinition_shorthand (name : Value) (parameters body : List Value) :
    expandDefinition (.symbol "define" :: .list (name :: parameters) :: body) =
      [.symbol "define", name, .list (.symbol "lambda" :: .list parameters :: lambdaBody body)] := by
  rw [expandDefinition, if_pos rfl]

theorem head?_expandDefinition (items : List Value) :
    (expandDefinition items).head? = items.head? := by
  by_cases shorthand : IsShorthand items
  · obtain ⟨name, parameters, body, rfl⟩ := shorthand
    rw [expandDefinition_shorthand]
    rfl
  · rw [expandDefinition_of_not_shorthand shorthand]

theorem headDepth_list (items : List Value) :
    (Value.list items).headDepth = (items.head?.map fun first => first.headDepth + 1).getD 0 := by
  cases items <;> rw [Value.headDepth] <;> simp

theorem Readable.headDepth_reread {v : Value} (readable : Readable v) :
    v.reread.headDepth = v.headDepth := by
  induction readable with
  | nil | bool | number | string | symbol => rfl
  | hash => rw [Value.reread_hash, Value.headDepth, Value.headDepth] <;> simp
  | @list items all ih =>
      rw [Value.reread_list, headDepth_list, headDepth_list, head?_expandDefinition, List.head?_map]
      cases items with
      | nil => rfl
      | cons first rest =>
          have kept := ih first List.mem_cons_self
          simp [kept]

theorem not_shorthand_of_reread {items : List Value} (all : ∀ item ∈ items, Readable item)
    (fixed : expandDefinition (items.map Value.reread) = items) :
    ¬ IsShorthand (items.map Value.reread) := by
  rintro ⟨name, parameters, body, shape⟩
  rw [shape, expandDefinition_shorthand] at fixed
  subst fixed
  simp only [List.map_cons, List.cons.injEq] at shape
  -- The name that the expansion has left would itself be read as a list that starts with it.
  have named : name.reread = .list (name :: parameters) := shape.2.1
  have kept := (all name (by simp)).headDepth_reread
  rw [named, Value.headDepth] at kept
  omega

theorem Readable.noShorthand {v : Value} (readable : Readable v) (fixed : v.reread = v) :
    NoShorthand v := by
  induction readable with
  | nil | bool | number | string | symbol =>
      intro name parameters body part
      cases part
  | @list items all ih =>
      rw [Value.reread_list, Value.list.injEq] at fixed
      have plain := not_shorthand_of_reread all fixed
      rw [expandDefinition_of_not_shorthand plain] at fixed
      have kept : ∀ item ∈ items, item.reread = item :=
        List.map_inj_left.mp (fixed.trans (List.map_id items).symm)
      rw [fixed] at plain
      exact noShorthand_list.mpr ⟨plain, fun item mem => ih item mem (kept item mem)⟩
  | @hash entries ascending all ih =>
      rw [Value.reread_hash, Value.hash.injEq] at fixed
      have kept : ∀ entry ∈ entries, (entry.1, entry.2.reread) = entry :=
        List.map_inj_left.mp (fixed.2.trans (List.map_id entries).symm)
      exact noShorthand_hash.mpr fun entry mem => ih entry mem (congrArg Prod.snd (kept entry mem))

/-! ## What the reader gives is data -/

/-- No number in a value, at any depth, is infinite. -/
def NoInfinity (v : Value) : Prop :=
  ∀ x, Part (.number x) v → x.isInf = false

@[simp]
theorem noInfinity_number {x : Float} : NoInfinity (.number x) ↔ x.isInf = false := by
  constructor
  · exact fun bounded => bounded x .self
  · rintro finite _ ⟨⟩
    exact finite

@[simp]
theorem noInfinity_string (s : String) : NoInfinity (.string s) := by
  rintro _ ⟨⟩

@[simp]
theorem noInfinity_symbol (name : String) : NoInfinity (.symbol name) := by
  rintro _ ⟨⟩

@[simp]
theorem noInfinity_list {items : List Value} :
    NoInfinity (.list items) ↔ ∀ item ∈ items, NoInfinity item := by
  constructor
  · exact fun bounded item mem x within => bounded x (.item mem within)
  · rintro bounded x (_ | ⟨mem, within⟩)
    exact bounded _ mem x within

@[simp]
theorem noInfinity_hash {name : Option String} {entries : List (String × Value)} :
    NoInfinity (.hash name entries) ↔ ∀ entry ∈ entries, NoInfinity entry.2 := by
  constructor
  · exact fun bounded entry mem x within => bounded x (.entry mem within)
  · rintro bounded x (_ | _ | ⟨mem, within⟩)
    exact bounded _ mem x within

/-! ### Atoms -/

theorem looksNumeric_splitSign (cs : List Char) :
    looksNumeric (Number.splitSign cs).2 = looksNumeric cs := by
  rw [Number.splitSign.eq_def]
  split <;> rfl

theorem notNaN_of_looksNumeric {cs : List Char} (numeric : looksNumeric cs = true) :
    (Number.splitSign cs).2.map Char.toLower ≠ "nan".toList := by
  rw [← looksNumeric_splitSign] at numeric
  intro word
  obtain ⟨c, rest, shape, lower, -⟩ := List.map_eq_cons_iff.mp word
  have distinct : ∀ other : Char, other.toLower ≠ 'n' → c ≠ other := by
    rintro other different rfl
    exact different lower
  have digit : c.isDigit = true := by
    have notPlus : c ≠ '+' := distinct '+' (by decide)
    have notMinus : c ≠ '-' := distinct '-' (by decide)
    have notPoint : c ≠ '.' := distinct '.' (by decide)
    rw [shape] at numeric
    simpa [looksNumeric, notPlus, notMinus, notPoint] using numeric
  rw [shape] at word
  exact Number.not_word digit rfl word

theorem readable_ofAtom {text : String} (alone : lexemes text.toList = [.atom text])
    (bounded : NoInfinity (.ofAtom text)) : Readable (.ofAtom text) := by
  generalize classified : Value.ofAtom text = v at bounded
  have shape := classified
  rw [Value.ofAtom] at shape
  split_ifs at shape with yes no none numeric
  · subst shape
    exact .bool true
  · subst shape
    exact .bool false
  · subst shape
    exact .nil
  · split at shape
    · next x read =>
        subst shape
        have finite := noInfinity_number.mp bounded
        exact .number (Number.isFinite_of_ofText? read (notNaN_of_looksNumeric numeric) finite)
    · subst shape
      exact .symbol alone classified
  · subst shape
    exact .symbol alone classified

theorem readable_keyword (marker : Marker) : Readable (.symbol marker.keyword) := by
  cases marker <;> exact .symbol rfl rfl

/-! ### Definitions -/

theorem lambdaBody_cases (body : List Value) :
    lambdaBody body = body ∨ lambdaBody body = [.list (.symbol "begin" :: body)] := by
  rw [lambdaBody.eq_def]
  split
  · exact .inl rfl
  · exact .inl rfl
  · exact .inl rfl
  · exact .inr rfl

theorem readable_lambdaBody {body : List Value} (all : ∀ form ∈ body, Readable form) :
    ∀ form ∈ lambdaBody body, Readable form := by
  have keyword : Readable (.symbol "begin") := .symbol rfl rfl
  rcases lambdaBody_cases body with same | grouped
  · rwa [same]
  · rw [grouped]
    exact List.forall_mem_singleton.mpr (.list (List.forall_mem_cons.mpr ⟨keyword, all⟩))

theorem part_lambdaBody {part form : Value} {body : List Value} (mem : form ∈ body)
    (within : Part part form) : ∃ other ∈ lambdaBody body, Part part other := by
  rcases lambdaBody_cases body with same | grouped
  · exact ⟨form, by rwa [same], within⟩
  · rw [grouped]
    exact ⟨_, List.mem_singleton_self _, .item (List.mem_cons_of_mem _ mem) within⟩

theorem readable_expandDefinition {items : List Value} (all : ∀ item ∈ items, Readable item) :
    ∀ item ∈ expandDefinition items, Readable item := by
  by_cases shorthand : IsShorthand items
  · obtain ⟨name, parameters, body, rfl⟩ := shorthand
    obtain ⟨define, signature, forms⟩ : Readable (.symbol "define") ∧
        Readable (.list (name :: parameters)) ∧ ∀ form ∈ body, Readable form := by simpa using all
    cases signature with
    | list allNames =>
        obtain ⟨named, names⟩ := List.forall_mem_cons.mp allNames
        have keyword : Readable (.symbol "lambda") := .symbol rfl rfl
        have procedure : Readable (.list (.symbol "lambda" :: .list parameters :: lambdaBody body)) :=
          .list (List.forall_mem_cons.mpr ⟨keyword, List.forall_mem_cons.mpr
            ⟨.list names, readable_lambdaBody forms⟩⟩)
        rw [expandDefinition_shorthand]
        simp [define, named, procedure]
  · rwa [expandDefinition_of_not_shorthand shorthand]

theorem number_expandDefinition {x : Float} {items : List Value} {item : Value} (mem : item ∈ items)
    (within : Part (.number x) item) : Part (.number x) (.list (expandDefinition items)) := by
  by_cases shorthand : IsShorthand items
  · obtain ⟨name, parameters, body, rfl⟩ := shorthand
    rw [expandDefinition_shorthand]
    have inner : ∀ {form : Value}, form ∈ Value.list parameters :: lambdaBody body →
        Part (.number x) form → Part (.number x) (.list [.symbol "define", name,
          .list (.symbol "lambda" :: .list parameters :: lambdaBody body)]) := fun mem within =>
      .item (List.mem_cons_of_mem _ (List.mem_cons_of_mem _ (List.mem_singleton_self _)))
        (.item (List.mem_cons_of_mem _ mem) within)
    rcases List.mem_cons.mp mem with rfl | mem
    · cases within
    rcases List.mem_cons.mp mem with rfl | mem
    · cases within with
      | item mem within =>
          rcases List.mem_cons.mp mem with rfl | mem
          · exact .item (List.mem_cons_of_mem _ List.mem_cons_self) within
          · exact inner List.mem_cons_self (.item mem within)
    · obtain ⟨form, memForm, withinForm⟩ := part_lambdaBody mem within
      exact inner (List.mem_cons_of_mem _ memForm) withinForm
  · rw [expandDefinition_of_not_shorthand shorthand]
    exact .item mem within

/-! ### Hashes -/

theorem Keyed.value_mem {items : List Value} {pairs : List (String × Value)}
    (keyed : Keyed items pairs) : ∀ pair ∈ pairs, pair.2 ∈ items := by
  induction keyed with
  | nil => nofun
  | string _ _ _ ih | symbol _ _ _ ih =>
      refine List.forall_mem_cons.mpr ⟨by simp, fun pair mem => ?_⟩
      exact List.mem_cons_of_mem _ (List.mem_cons_of_mem _ (ih pair mem))

theorem mem_of_lastValue? {pairs : List (String × Value)} {key : String} {v : Value}
    (last : lastValue? pairs key = some v) : ∃ pair ∈ pairs, pair.2 = v := by
  obtain ⟨pair, found, rfl⟩ := Option.map_eq_some_iff.mp last
  exact ⟨pair, List.mem_reverse.mp (List.mem_of_find?_eq_some found), rfl⟩

theorem readable_encloses {bracket : Bracket} {items : List Value} {v : Value}
    (encloses : Encloses bracket items v) (all : ∀ item ∈ items, NoInfinity item → Readable item)
    (bounded : NoInfinity v) : Readable v := by
  cases encloses with
  | round =>
      refine .list (readable_expandDefinition fun item mem => all item mem fun x within => ?_)
      exact bounded x (number_expandDefinition mem within)
  | square => exact .list fun item mem => all item mem (noInfinity_list.mp bounded item mem)
  | @curly _ pairs entries keyed ascending counted =>
      refine .hash ascending fun entry mem => ?_
      -- Values that later ones with the same key replace are not in the hash and may be anything.
      obtain ⟨pair, written, same⟩ := mem_of_lastValue?
        ((counted entry.1).symm.trans (ascending.get?_of_mem mem))
      have item : entry.2 ∈ items := same ▸ keyed.value_mem pair written
      exact all entry.2 item (noInfinity_hash.mp bounded entry mem)

/-! ### Expressions -/

/-- What derivable phrases denote is data, as far as no number is infinite. -/
def Phrase.DenotesData : Phrase → Prop
  | form v => NoInfinity v → Readable v
  | forms values => ∀ v ∈ values, NoInfinity v → Readable v

theorem Derives.denotesData {phrase : Phrase} {ks : List TokenKind} (derived : Derives phrase ks)
    (atoms : ∀ text, .atom text ∈ ks → lexemes text.toList = [.atom text]) :
    phrase.DenotesData := by
  induction derived with
  | atom text => exact readable_ofAtom (atoms text (List.mem_singleton_self _))
  | string => exact fun _ => .string _
  | bracketed content encloses ih =>
      refine readable_encloses encloses (ih fun text mem => atoms text ?_)
      exact List.mem_cons_of_mem _ (List.mem_append_left _ mem)
  | marked marker content ih =>
      intro bounded
      have operand := ih (fun text mem => atoms text (List.mem_cons_of_mem _ mem))
        (noInfinity_list.mp bounded _ (List.mem_cons_of_mem _ (List.mem_singleton_self _)))
      exact .list (List.forall_mem_cons.mpr
        ⟨readable_keyword marker, List.forall_mem_singleton.mpr operand⟩)
  | nil => nofun
  | cons first rest firstIH restIH =>
      exact List.forall_mem_cons.mpr
        ⟨firstIH fun text mem => atoms text (List.mem_append_left _ mem),
          restIH fun text mem => atoms text (List.mem_append_right _ mem)⟩

theorem readable_of_readFirst {source : String} {v : Value}
    (read : readFirst source = .ok (some v)) (bounded : NoInfinity v) : Readable v := by
  have outcome : readOne (tokenize source) = (.ok (some v), (readOne (tokenize source)).2) :=
    Prod.ext read rfl
  obtain ⟨front, split, derived⟩ := readOne_iff_derives.mp outcome
  refine derived.denotesData (fun text mem => ?_) bounded
  have present : .atom text ∈ lexemes source.toList := by
    rw [← kinds_tokenize, split, kinds, List.map_append]
    exact List.mem_append_left _ mem
  exact lexemes_of_atom_mem present

/-- What the reader gave can be printed and read again. It comes back just when it contains no
shorthand for a definition; otherwise the shorthand is expanded, once in each list. -/
theorem readFirst_render_readFirst {source : String} {v : Value}
    (read : readFirst source = .ok (some v)) (bounded : NoInfinity v) :
    readFirst v.render = .ok (some v.reread) ∧
      (readFirst v.render = .ok (some v) ↔ NoShorthand v) := by
  have readable := readable_of_readFirst read bounded
  have reread := (readsAs_of_readable readable).readFirst_eq
  refine ⟨reread, fun same => ?_, fun plain => ?_⟩
  · rw [reread, Except.ok.injEq, Option.some.injEq] at same
    exact readable.noShorthand same
  · rw [reread, readable.reread_eq plain]

/-- The definition in square brackets is a list like any other, and the infinite number between the
curly ones is replaced by a later value of its key. -/
private def bracketedText : String :=
  "(define (f x) [define (g) '(x)] \x7bk 1e999 k \"a\\q\" n -0.5\x7d) trailing"

private def bracketed : Value :=
  .list [.symbol "define", .symbol "f", .list [.symbol "lambda", .list [.symbol "x"],
    .list [.symbol "begin",
      .list [.symbol "define", .list [.symbol "g"], .list [.symbol "quote", .list [.symbol "x"]]],
      .hash none [("k", .string "a\\q"), ("n", .number (.ofBits 0xBFE0000000000000))]]]]

theorem readFirst_render_readFirst_bracketed :
    readFirst bracketedText = .ok (some bracketed) ∧ NoInfinity bracketed ∧
      readFirst bracketed.render = .ok (some bracketed.reread) ∧
      (readFirst bracketed.render = .ok (some bracketed) ↔ NoShorthand bracketed) :=
  have read : readFirst bracketedText = .ok (some bracketed) := rfl
  have finite : (Float.ofBits 0xBFE0000000000000).isInf = false := rfl
  have bounded : NoInfinity bracketed := by simp [bracketed, finite]
  ⟨read, bounded, readFirst_render_readFirst read bounded⟩

private def curried : Value :=
  .list [.symbol "define", .list [.symbol "f"],
    .list [.symbol "lambda", .list [.symbol "x"], .symbol "b"]]

/-- The expansion of a definition can itself be the shorthand for one, which is read as another
list. -/
theorem readFirst_render_curried :
    readFirst "(define ((f) x) b)" = .ok (some curried) ∧ NoInfinity curried ∧
      readFirst curried.render ≠ .ok (some curried) := by
  have again : readFirst curried.render = .ok (some (.list [.symbol "define", .symbol "f",
      .list [.symbol "lambda", .list [],
        .list [.symbol "lambda", .list [.symbol "x"], .symbol "b"]]])) := rfl
  refine ⟨rfl, by simp [curried], ?_⟩
  rw [again]
  simp [curried]

end Lisp
