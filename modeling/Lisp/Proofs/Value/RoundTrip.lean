import Lisp.Proofs.Number.Text
import Lisp.Proofs.Reader.Acceptance
import Lisp.Proofs.Token.Lexemes
import Lisp.Value.Printer

/-! Data reads back from its printed form. -/

set_option autoImplicit false

namespace Lisp

/-! ## Readable values -/

/-- The values that are made of data alone. The name of a symbol has to be an atom by itself, and
one that stands for that symbol. -/
inductive Readable : Value → Prop where
  | nil : Readable .nil
  | bool (b : Bool) : Readable (.bool b)
  | number {x : Float} (finite : Number.isFinite x = true) : Readable (.number x)
  | string (s : String) : Readable (.string s)
  | symbol {name text : String} (single : kinds (tokenize name) = [.atom text])
      (classified : Value.ofAtom text = .symbol name) : Readable (.symbol name)
  | list {items : List Value} (all : ∀ item ∈ items, Readable item) : Readable (.list items)
  | hash {entries : Dict Value} (ascending : entries.Ascending)
      (all : ∀ entry ∈ entries, Readable entry.2) : Readable (.hash none entries)

/-- A value is another or occurs in it, at any depth. -/
inductive Part (part : Value) : Value → Prop where
  | self : Part part part
  | item {items : List Value} {item : Value} (mem : item ∈ items) (within : Part part item) :
      Part part (.list items)
  | entry {name : Option String} {entries : List (String × Value)} {entry : String × Value}
      (mem : entry ∈ entries) (within : Part part entry.2) : Part part (.hash name entries)

/-- No part of a value is a list that would be read as the definition of a procedure. -/
def NoShorthand (v : Value) : Prop :=
  ∀ name parameters body,
    ¬ Part (.list (.symbol "define" :: .list (name :: parameters) :: body)) v

theorem NoShorthand.item {items : List Value} {item : Value}
    (plain : NoShorthand (.list items)) (mem : item ∈ items) : NoShorthand item :=
  fun name parameters body part => plain name parameters body (.item mem part)

theorem NoShorthand.entry {name : Option String} {entries : List (String × Value)}
    {entry : String × Value} (plain : NoShorthand (.hash name entries)) (mem : entry ∈ entries) :
    NoShorthand entry.2 :=
  fun name parameters body part => plain name parameters body (.entry mem part)

/-! ## Rereading -/

/-- Items that round brackets make the definition of a procedure. -/
def IsShorthand (items : List Value) : Prop :=
  ∃ name parameters body, items = .symbol "define" :: .list (name :: parameters) :: body

theorem expandDefinition_of_not_shorthand {items : List Value} (plain : ¬ IsShorthand items) :
    expandDefinition items = items := by
  rw [expandDefinition.eq_def]
  split
  · next keyword name parameters body =>
      split
      · next define =>
          subst define
          exact absurd ⟨name, parameters, body, rfl⟩ plain
      · rfl
  · rfl

theorem NoShorthand.not_shorthand {items : List Value} (plain : NoShorthand (.list items)) :
    ¬ IsShorthand items := by
  rintro ⟨name, parameters, body, rfl⟩
  exact plain name parameters body .self

@[simp]
theorem noShorthand_string (s : String) : NoShorthand (.string s) := by
  rintro _ _ _ ⟨⟩

@[simp]
theorem noShorthand_symbol (name : String) : NoShorthand (.symbol name) := by
  rintro _ _ _ ⟨⟩

@[simp]
theorem noShorthand_list {items : List Value} :
    NoShorthand (.list items) ↔ ¬ IsShorthand items ∧ ∀ item ∈ items, NoShorthand item := by
  constructor
  · exact fun plain => ⟨plain.not_shorthand, fun _ mem => plain.item mem⟩
  · rintro ⟨notShorthand, all⟩ name parameters body (_ | ⟨mem, within⟩)
    · exact notShorthand ⟨name, parameters, body, rfl⟩
    · exact all _ mem name parameters body within

@[simp]
theorem noShorthand_hash {name : Option String} {entries : List (String × Value)} :
    NoShorthand (.hash name entries) ↔ ∀ entry ∈ entries, NoShorthand entry.2 := by
  constructor
  · exact fun plain _ mem => plain.entry mem
  · rintro all keyword parameters body (_ | _ | ⟨mem, within⟩)
    exact all _ mem keyword parameters body within

namespace Value

mutual

/-- What the printed form of data is read as: all lists stand in round brackets there, so each is
expanded as a definition, inner ones first. -/
def reread : Value → Value
  | list items => .list (expandDefinition (rereadItems items))
  | hash name entries => .hash name (rereadEntries entries)
  | v => v

def rereadItems : List Value → List Value
  | [] => []
  | v :: rest => reread v :: rereadItems rest

def rereadEntries : List (String × Value) → List (String × Value)
  | [] => []
  | (key, v) :: rest => (key, reread v) :: rereadEntries rest

end

theorem rereadItems_eq_map (items : List Value) : rereadItems items = items.map reread := by
  induction items with
  | nil => rfl
  | cons item rest ih => rw [rereadItems, List.map_cons, ih]

theorem rereadEntries_eq_map (entries : List (String × Value)) :
    rereadEntries entries = entries.map fun entry => (entry.1, reread entry.2) := by
  induction entries with
  | nil => rfl
  | cons entry rest ih => rw [rereadEntries, List.map_cons, ih]

theorem reread_list (items : List Value) :
    reread (.list items) = .list (expandDefinition (items.map reread)) := by
  rw [reread, rereadItems_eq_map]

theorem reread_hash (name : Option String) (entries : List (String × Value)) :
    reread (.hash name entries) = .hash name (entries.map fun entry => (entry.1, reread entry.2)) := by
  rw [reread, rereadEntries_eq_map]

end Value

/-- Data without shorthand for definitions reads as itself. -/
theorem Readable.reread_eq {v : Value} (readable : Readable v) (plain : NoShorthand v) :
    v.reread = v := by
  induction readable with
  | nil | bool | number | string | symbol => rfl
  | list all ih =>
      have kept := List.map_congr_left fun item mem => ih item mem (plain.item mem)
      rw [Value.reread_list, kept, List.map_id', expandDefinition_of_not_shorthand plain.not_shorthand]
  | @hash entries ascending all ih =>
      have kept : ∀ entry ∈ entries, (entry.1, entry.2.reread) = entry :=
        fun entry mem => Prod.ext rfl (ih entry mem (plain.entry mem))
      rw [Value.reread_hash, List.map_congr_left kept, List.map_id']

/-! ## Printed forms and their tokens -/

/-- In front of anything that does not go on with an atom, a text has the tokens `ks`. -/
def Lexes (text : List Char) (ks : List TokenKind) : Prop :=
  ∀ rest, Delimited rest → lexemes (text ++ rest) = ks ++ lexemes rest

/-- The tokens of the printed form of `v` derive `w`. -/
def ReadsAs (v w : Value) : Prop :=
  ∃ ks, Lexes v.render.toList ks ∧ Derives (.form w) ks

/-- The tokens of the printed form of `v`, changed one by one, derive `w`. -/
def ReadsThrough (change : TokenKind → TokenKind) (v w : Value) : Prop :=
  ∃ ks, Lexes v.render.toList ks ∧ Derives (.form w) (ks.map change)

theorem readsThrough_id {v w : Value} : ReadsThrough id v w ↔ ReadsAs v w := by
  simp only [ReadsThrough, ReadsAs, List.map_id]

def Spelled (v : Value) : Prop :=
  ReadsAs v v

theorem spelled_of_atom {v : Value} {c : Char} {rest : List Char}
    (shape : v.render.toList = c :: rest) (starts : startsAtom c = true)
    (continues : ∀ other ∈ rest, continuesAtom other = true)
    (classified : Value.ofAtom v.render = v) : Spelled v := by
  have text : v.render = .ofList (c :: rest) := by rw [← shape, String.ofList_toList]
  refine ⟨[.atom v.render], fun after delimited => ?_, ?_⟩
  · rw [shape, lexemes_atom starts continues delimited, text]
    rfl
  · have derived := Derives.atom v.render
    rwa [classified] at derived

theorem ofAtom_symbol {text name : String} (classified : Value.ofAtom text = .symbol name) :
    text = name := by
  rw [Value.ofAtom] at classified
  split_ifs at classified
  · split at classified
    · cases classified
    · cases classified
      rfl
  · cases classified
    rfl

theorem spelled_symbol {name text : String} (single : kinds (tokenize name) = [.atom text])
    (classified : Value.ofAtom text = .symbol name) : Spelled (.symbol name) := by
  obtain rfl := ofAtom_symbol classified
  have alone : lexemes text.toList = [.atom (.ofList text.toList)] := by
    rw [String.ofList_toList]
    exact single
  obtain ⟨c, rest, shape, starts, continues⟩ := atom_of_lexemes alone
  exact spelled_of_atom shape starts continues classified

/-! ### Numbers -/

private theorem continuesAtom_digit {c : Char} (digit : c.isDigit = true) :
    continuesAtom c = true := by
  have distinct : ∀ other : Char, other.isDigit = false → c ≠ other :=
    fun _ => Number.ne_of_isDigit digit
  simp [continuesAtom, isSeparator, Bracket.ofOpener?, Bracket.ofCloser?, distinct]

private theorem startsAtom_digit {c : Char} (digit : c.isDigit = true) : startsAtom c = true := by
  have notMark : c ≠ '~' := Number.ne_of_isDigit digit rfl
  simp [startsAtom, continuesAtom_digit digit, notMark]

/-- Number text starts with a digit, perhaps after a minus, and goes on with digits and points. -/
private theorem number_shape {x : Float} (finite : Number.isFinite x = true) :
    ∃ c rest, (Number.toText x).toList = (if Number.isNegative x then ['-'] else []) ++ c :: rest ∧
      c.isDigit = true ∧ ∀ other ∈ rest, other.isDigit = true ∨ other = '.' := by
  obtain ⟨b, magnitude⟩ := Option.isSome_iff_exists.mp finite
  obtain ⟨c, rest, shape, digit, others⟩ :=
    (Number.positional_value (Number.shortest b)).cons_of
  exact ⟨c, rest, by rw [Number.toText_toList magnitude, shape], digit, others⟩

private theorem looksNumeric_digit {c : Char} (digit : c.isDigit = true) (rest : List Char)
    (negative : Bool) : looksNumeric ((if negative then ['-'] else []) ++ c :: rest) = true := by
  have distinct : ∀ other : Char, other.isDigit = false → c ≠ other :=
    fun _ => Number.ne_of_isDigit digit
  cases negative <;> simp [looksNumeric, distinct, digit]

private theorem ofAtom_number {text : String} {x : Float} (numeric : looksNumeric text.toList = true)
    (read : Number.ofText? text = some x) : Value.ofAtom text = .number x := by
  have distinct : ∀ word : String, looksNumeric word.toList = false → text ≠ word := by
    rintro word notNumeric rfl
    rw [notNumeric] at numeric
    cases numeric
  have notTrue := distinct "#t" rfl
  have notTrue' := distinct "true" rfl
  have notFalse := distinct "#f" rfl
  have notFalse' := distinct "false" rfl
  have notNil := distinct "nil" rfl
  simp only [Value.ofAtom, notTrue, notTrue', notFalse, notFalse', notNil, numeric, read,
    decide_false, Bool.or_false, Bool.false_eq_true, if_false, if_true]

theorem spelled_number {x : Float} (finite : Number.isFinite x = true) : Spelled (.number x) := by
  obtain ⟨c, rest, shape, digit, others⟩ := number_shape finite
  have continues : ∀ other ∈ rest, continuesAtom other = true := by
    intro other present
    rcases others other present with isDigit | rfl
    · exact continuesAtom_digit isDigit
    · rfl
  have numeric : looksNumeric (Number.toText x).toList = true := by
    rw [shape]
    exact looksNumeric_digit digit rest _
  have classified := ofAtom_number numeric (Number.ofText?_toText finite)
  cases negative : Number.isNegative x with
  | true =>
      rw [negative] at shape
      refine @spelled_of_atom (.number x) '-' (c :: rest) shape rfl ?_ classified
      intro other present
      rcases List.mem_cons.mp present with rfl | later
      · exact continuesAtom_digit digit
      · exact continues other later
  | false =>
      rw [negative] at shape
      exact @spelled_of_atom (.number x) c rest shape (startsAtom_digit digit) continues classified

/-! ### Strings -/

private theorem written_escape (cs : List Char) : Text.Written (cs.flatMap Text.escape) cs := by
  induction cs with
  | nil => exact .nil
  | cons c cs ih =>
      rw [List.flatMap_cons, Text.escape]
      split_ifs with quote backslash feed carriage tab
      · subst quote
        exact .escaped '"' ih
      · subst backslash
        exact .escaped '\\' ih
      · subst feed
        exact .escaped 'n' ih
      · subst carriage
        exact .escaped 'r' ih
      · subst tab
        exact .escaped 't' ih
      · exact .plain backslash ih

theorem derives_quote (s : String) : Derives (.form (.string s)) [.string (Text.quote s)] := by
  have shape : (Text.quote s).toList = '"' :: (s.toList.flatMap Text.escape ++ ['"']) := by
    rw [Text.quote, String.toList_ofList]
    rfl
  have derived := Derives.string shape (written_escape s.toList)
  rwa [String.ofList_toList] at derived

theorem spelled_string (s : String) : Spelled (.string s) :=
  ⟨[.string (Text.quote s)], fun rest _ => lexemes_quote s rest, derives_quote s⟩

/-! ### Lists and hashes -/

/-- Texts that stand apart have their tokens one after the other. -/
private theorem lexes_joined {text : List Char} {ks ks' : List TokenKind} {texts : List (List Char)}
    (first : Lexes text ks) (others : Lexes ([' '].intercalate texts) ks') :
    Lexes ([' '].intercalate (text :: texts)) (ks ++ ks') := by
  intro rest delimited
  cases texts with
  | nil =>
      have none : [] = ks' ++ [] := others [] delimited_nil
      rw [List.append_nil] at none
      rw [← none, List.append_nil, List.intercalate_singleton]
      exact first rest delimited
  | cons second texts =>
      have gap : Delimited (' ' :: ([' '].intercalate (second :: texts) ++ rest)) :=
        delimited_cons rfl _
      rw [List.intercalate_cons_cons, List.append_assoc, List.append_assoc, List.singleton_append,
        first _ gap, lexemes_separator rfl, others rest delimited, List.append_assoc]

private theorem lexes_bracketed {text : List Char} {ks : List TokenKind} (bracket : Bracket)
    (inside : Lexes text ks) :
    Lexes (bracket.opener :: (text ++ [bracket.closer]))
      (.opening bracket :: (ks ++ [.closing bracket])) := by
  intro rest _
  have stops : continuesAtom bracket.closer = false := by cases bracket <;> rfl
  rw [List.cons_append, List.append_assoc, lexemes_opener, List.singleton_append,
    inside _ (delimited_cons stops rest), lexemes_closer, List.cons_append, List.append_assoc]
  rfl

section

variable {change : TokenKind → TokenKind} {meaning : Value → Value}

private theorem lexes_items {items : List Value}
    (reads : ∀ item ∈ items, ReadsThrough change item (meaning item)) :
    ∃ ks, Lexes ([' '].intercalate ((Value.renderItems items).map String.toList)) ks ∧
      Derives (.forms (items.map meaning)) (ks.map change) := by
  induction items with
  | nil => exact ⟨[], fun _ _ => rfl, .nil⟩
  | cons item rest ih =>
      obtain ⟨front, firstLexes, firstDerived⟩ := reads item List.mem_cons_self
      obtain ⟨back, restLexes, restDerived⟩ :=
        ih fun other mem => reads other (List.mem_cons_of_mem _ mem)
      refine ⟨front ++ back, lexes_joined firstLexes restLexes, ?_⟩
      rw [List.map_append]
      exact .cons firstDerived restDerived

theorem readsThrough_bracketed {bracket bracket' : Bracket} {items : List Value} {v w : Value}
    {text : List Char} {inside : List TokenKind}
    (shape : v.render.toList = bracket.opener :: (text ++ [bracket.closer]))
    (lexes : Lexes text inside) (derived : Derives (.forms items) (inside.map change))
    (opens : change (.opening bracket) = .opening bracket')
    (closes : change (.closing bracket) = .closing bracket') (encloses : Encloses bracket' items w) :
    ReadsThrough change v w := by
  refine ⟨.opening bracket :: (inside ++ [.closing bracket]), ?_, ?_⟩
  · rw [shape]
    exact lexes_bracketed bracket lexes
  · rw [List.map_cons, List.map_append, List.map_singleton, opens, closes]
    exact .bracketed derived encloses

theorem readsThrough_list {bracket : Bracket} {items : List Value} {w : Value}
    (reads : ∀ item ∈ items, ReadsThrough change item (meaning item))
    (opens : change (.opening .round) = .opening bracket)
    (closes : change (.closing .round) = .closing bracket)
    (encloses : Encloses bracket (items.map meaning) w) : ReadsThrough change (.list items) w := by
  obtain ⟨inside, lexes, derived⟩ := lexes_items reads
  refine readsThrough_bracketed ?_ lexes derived opens closes encloses
  rw [Value.render]
  simp [Bracket.opener, Bracket.closer]

/-- The forms that stand between the brackets of a hash. -/
def entryForms (entries : List (String × Value)) : List Value :=
  entries.flatMap fun entry => [.string entry.1, entry.2]

private theorem keyed_entries (entries : List (String × Value)) :
    Keyed (entryForms entries) entries := by
  induction entries with
  | nil => exact .nil
  | cons entry rest ih => exact .string entry.1 entry.2 ih

private theorem lexes_entries {entries : List (String × Value)}
    (keeps : ∀ text, change (.string text) = .string text)
    (reads : ∀ entry ∈ entries, ReadsThrough change entry.2 (meaning entry.2)) :
    ∃ ks, Lexes ([' '].intercalate ((Value.renderEntries entries).map String.toList)) ks ∧
      Derives (.forms (entryForms (entries.map fun entry => (entry.1, meaning entry.2))))
        (ks.map change) := by
  induction entries with
  | nil => exact ⟨[], fun _ _ => rfl, .nil⟩
  | cons entry rest ih =>
      obtain ⟨key, value⟩ := entry
      obtain ⟨front, firstLexes, firstDerived⟩ := reads (key, value) List.mem_cons_self
      obtain ⟨back, restLexes, restDerived⟩ :=
        ih fun other mem => reads other (List.mem_cons_of_mem _ mem)
      have pair : Lexes (Text.quote key ++ " " ++ value.render).toList
          (.string (Text.quote key) :: front) := by
        intro after delimited
        rw [String.toList_append, String.toList_append, List.append_assoc, List.append_assoc,
          lexemes_quote]
        exact congrArg _ ((lexemes_separator rfl _).trans (firstLexes after delimited))
      have derived : Derives (.forms (.string key :: meaning value ::
          entryForms (rest.map fun entry => (entry.1, meaning entry.2))))
          ([.string (Text.quote key)] ++ (front.map change ++ back.map change)) :=
        .cons (derives_quote key) (.cons firstDerived restDerived)
      refine ⟨.string (Text.quote key) :: front ++ back, lexes_joined pair restLexes, ?_⟩
      simp only [List.map_append, List.map_cons, keeps]
      exact derived

theorem readsThrough_hash {entries : Dict Value} (ascending : entries.Ascending)
    (keeps : ∀ text, change (.string text) = .string text)
    (opens : change (.opening .curly) = .opening .curly)
    (closes : change (.closing .curly) = .closing .curly)
    (reads : ∀ entry ∈ entries, ReadsThrough change entry.2 (meaning entry.2)) :
    ReadsThrough change (.hash none entries)
      (.hash none (entries.map fun entry => (entry.1, meaning entry.2))) := by
  obtain ⟨inside, lexes, derived⟩ := lexes_entries keeps reads
  have ordered : Dict.Ascending (entries.map fun entry => (entry.1, meaning entry.2)) :=
    List.pairwise_map.mpr ascending
  have counted : ∀ key, Dict.get? (entries.map fun entry => (entry.1, meaning entry.2)) key =
      lastValue? (entries.map fun entry => (entry.1, meaning entry.2)) key := by
    intro key
    rw [← get?_ofList, ordered.ofList_eq]
  refine readsThrough_bracketed ?_ lexes derived opens closes
    (.curly (keyed_entries _) ordered counted)
  rw [Value.render]
  simp [Bracket.opener, Bracket.closer]

end

theorem readsAs_list {items : List Value} (reads : ∀ item ∈ items, ReadsAs item item.reread) :
    ReadsAs (.list items) (Value.list items).reread := by
  rw [Value.reread_list, ← readsThrough_id]
  exact readsThrough_list (fun item mem => readsThrough_id.mpr (reads item mem)) rfl rfl (.round _)

theorem readsAs_hash {entries : Dict Value} (ascending : entries.Ascending)
    (reads : ∀ entry ∈ entries, ReadsAs entry.2 entry.2.reread) :
    ReadsAs (.hash none entries) (Value.hash none entries).reread := by
  rw [Value.reread_hash, ← readsThrough_id]
  exact readsThrough_hash ascending (fun _ => rfl) rfl rfl
    fun entry mem => readsThrough_id.mpr (reads entry mem)

theorem readsAs_of_readable {v : Value} (readable : Readable v) : ReadsAs v v.reread := by
  induction readable with
  | nil => exact spelled_of_atom rfl rfl (List.all_eq_true.mp rfl) rfl
  | bool b => cases b <;> exact spelled_of_atom rfl rfl (List.all_eq_true.mp rfl) rfl
  | number finite => exact spelled_number finite
  | string s => exact spelled_string s
  | symbol single classified => exact spelled_symbol single classified
  | list all ih => exact readsAs_list ih
  | hash ascending all ih => exact readsAs_hash ascending ih

theorem spelled_of_readable {v : Value} (readable : Readable v) (plain : NoShorthand v) :
    Spelled v := by
  have reads := readsAs_of_readable readable
  rwa [readable.reread_eq plain] at reads

/-- A printed form has no tokens but its own. -/
theorem ReadsAs.derives {v w : Value} (reads : ReadsAs v w) :
    Derives (.form w) (kinds (tokenize v.render)) := by
  obtain ⟨ks, lexes, derived⟩ := reads
  have alone : lexemes (v.render.toList ++ []) = ks ++ [] := lexes [] delimited_nil
  rw [List.append_nil, List.append_nil] at alone
  rwa [kinds_tokenize, alone]

theorem ReadsAs.readFirst_eq {v w : Value} (reads : ReadsAs v w) :
    readFirst v.render = .ok (some w) := by
  have read := readOne_of_derives reads.derives []
  rw [List.append_nil] at read
  rw [readFirst, read]

theorem ReadsAs.readAll_eq {v w : Value} (reads : ReadsAs v w) : readAll v.render = .ok [w] := by
  have derived : Derives (.forms [w]) (kinds (tokenize v.render) ++ []) := .cons reads.derives .nil
  rw [List.append_nil] at derived
  exact readAll_iff_derives.mpr derived

/-- Reading the printed form of data gives the data back. -/
theorem readAll_render {v : Value} (readable : Readable v) (plain : NoShorthand v) :
    readAll v.render = .ok [v] := by
  obtain ⟨ks, lexes, derived⟩ := spelled_of_readable readable plain
  have alone := lexes [] delimited_nil
  have tokens : kinds (tokenize v.render) = ks ++ [] := by
    rw [List.append_nil] at alone
    rw [kinds_tokenize, alone]
    rfl
  rw [readAll_iff_derives, tokens]
  exact .cons derived .nil

/-- One tenth, a symbol with a mark in its name, strings with quotes, backslashes and line feeds,
and both kinds of brackets. -/
private def sample : Value :=
  .list [.symbol "define", .symbol "a~b", .nil, .list [], .bool false,
    .hash none [("k \"", .list [.string "\\\n"]), ("l", .number (.ofBits 0x3FB999999999999A))]]

private theorem readable_sample : Readable sample := by
  have keyword : kinds (tokenize "define") = [.atom "define"] :=
    @lexemes_atom 'd' ['e', 'f', 'i', 'n', 'e'] [] rfl (List.all_eq_true.mp rfl) delimited_nil
  have marked : kinds (tokenize "a~b") = [.atom "a~b"] :=
    @lexemes_atom 'a' ['~', 'b'] [] rfl (List.all_eq_true.mp rfl) delimited_nil
  refine .list (List.forall_mem_cons.mpr ⟨.symbol keyword rfl, List.forall_mem_cons.mpr
    ⟨.symbol marked rfl, List.forall_mem_cons.mpr ⟨.nil, List.forall_mem_cons.mpr
      ⟨.list (by simp), List.forall_mem_cons.mpr ⟨.bool false, ?_⟩⟩⟩⟩⟩)
  have ascending : Dict.Ascending [("k \"", Value.list [.string "\\\n"]),
      ("l", .number (.ofBits 0x3FB999999999999A))] := by
    have less : "k \"" < "l" := by decide
    simpa [Dict.Ascending] using less
  refine List.forall_mem_singleton.mpr (.hash ascending (List.forall_mem_cons.mpr
    ⟨.list (List.forall_mem_singleton.mpr (.string _)), List.forall_mem_singleton.mpr ?_⟩))
  exact .number (by decide +kernel)

private theorem noShorthand_sample : NoShorthand sample := by
  intro name parameters body part
  cases part with
  | item mem within =>
      simp only [List.mem_cons, List.not_mem_nil, or_false] at mem
      rcases mem with rfl | rfl | rfl | rfl | rfl | rfl
      · cases within
      · cases within
      · cases within
      · cases within with
        | item mem within => cases mem
      · cases within
      · cases within with
        | entry mem within =>
            simp only [List.mem_cons, List.not_mem_nil, or_false] at mem
            rcases mem with rfl | rfl
            · cases within with
              | item mem within =>
                  obtain rfl := List.mem_singleton.mp mem
                  cases within
            · cases within

theorem readAll_render_sample :
    Readable sample ∧ NoShorthand sample ∧ readAll sample.render = .ok [sample] :=
  ⟨readable_sample, noShorthand_sample, readAll_render readable_sample noShorthand_sample⟩

end Lisp
