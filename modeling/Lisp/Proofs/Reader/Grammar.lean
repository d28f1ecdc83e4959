import Lisp.Reader
import Lisp.Proofs.Dict
import Lisp.Proofs.Text.Quoted

/-! The grammar of expressions over tokens, with the value of each expression, and its
completeness: the reader follows every derivation. -/

set_option autoImplicit false

namespace Lisp

/-- The keys and values that alternate in the items between curly brackets. -/
inductive Keyed : List Value → List (String × Value) → Prop where
  | nil : Keyed [] []
  | string (key : String) (value : Value) {items : List Value} {pairs : List (String × Value)}
      (rest : Keyed items pairs) : Keyed (.string key :: value :: items) ((key, value) :: pairs)
  | symbol (key : String) (value : Value) {items : List Value} {pairs : List (String × Value)}
      (rest : Keyed items pairs) : Keyed (.symbol key :: value :: items) ((key, value) :: pairs)

/-- The value that the last pair with a key gives it. -/
def lastValue? (pairs : List (String × Value)) (key : String) : Option Value :=
  (pairs.reverse.find? fun pair => pair.1 = key).map Prod.snd

/-- The values of items between brackets. Only round brackets allow the shorthand for procedure
definitions, and of equal keys between curly brackets the last one counts. -/
inductive Encloses : Bracket → List Value → Value → Prop where
  | round (items : List Value) : Encloses .round items (.list (expandDefinition items))
  | square (items : List Value) : Encloses .square items (.list items)
  | curly {items : List Value} {pairs : List (String × Value)} {entries : Dict Value}
      (keyed : Keyed items pairs) (ascending : entries.Ascending)
      (counted : ∀ key, entries.get? key = lastValue? pairs key) :
      Encloses .curly items (.hash none entries)

/-- What a stretch of tokens denotes: one expression or a sequence of them. -/
inductive Phrase where
  | form (value : Value)
  | forms (values : List Value)

/-- The tokens that an expression or a sequence is written with. -/
inductive Derives : Phrase → List TokenKind → Prop where
  | atom (text : String) : Derives (.form (.ofAtom text)) [.atom text]
  /-- A string token; in every text its first character is the opening quote. The reader does not
  look at that character, and the rule is about tokens in which it takes a single byte. -/
  | string {text : String} {opener : Char} {written meaning : List Char}
      (shape : text.toList = opener :: (written ++ ['"'])) (denotes : Text.Written written meaning) :
      Derives (.form (.string (.ofList meaning))) [.string text]
  | bracketed {bracket : Bracket} {items : List Value} {value : Value} {inside : List TokenKind}
      (content : Derives (.forms items) inside) (encloses : Encloses bracket items value) :
      Derives (.form value) (.opening bracket :: (inside ++ [.closing bracket]))
  | marked (marker : Marker) {value : Value} {operand : List TokenKind}
      (content : Derives (.form value) operand) :
      Derives (.form (.list [.symbol marker.keyword, value])) (.mark marker :: operand)
  | nil : Derives (.forms []) []
  | cons {value : Value} {values : List Value} {front back : List TokenKind}
      (first : Derives (.form value) front) (rest : Derives (.forms values) back) :
      Derives (.forms (value :: values)) (front ++ back)

def kinds (tokens : List Token) : List TokenKind :=
  tokens.map Token.kind

/-! ## Values of bracketed items -/

theorem Keyed.even_length {items : List Value} {pairs : List (String × Value)}
    (keyed : Keyed items pairs) : items.length % 2 = 0 := by
  induction keyed with
  | nil => rfl
  | string _ _ _ ih | symbol _ _ _ ih =>
      rw [List.length_cons, List.length_cons]
      omega

theorem keyedPairs_ok {items : List Value} {pairs : List (String × Value)} :
    keyedPairs items = .ok pairs ↔ Keyed items pairs := by
  constructor
  · intro paired
    induction items using keyedPairs.induct generalizing pairs with
    | case1 =>
        cases paired
        exact .nil
    | case2 => cases paired
    | case3 k v rest noKey =>
        rw [keyedPairs, noKey] at paired
        cases paired
    | case4 k v rest key found ih =>
        rw [keyedPairs, found] at paired
        cases others : keyedPairs rest with
        | error fault => simp [others, Except.map] at paired
        | ok others' =>
            rw [others] at paired
            cases paired
            cases k with
            | string s =>
                cases found
                exact .string key v (ih others)
            | symbol s =>
                cases found
                exact .symbol key v (ih others)
            | _ => cases found
  · intro keyed
    induction keyed with
    | nil => rfl
    | string _ _ _ ih | symbol _ _ _ ih => simp [keyedPairs, Value.key?, ih, Except.map]

theorem hashLiteral_ok {items : List Value} {value : Value} :
    hashLiteral items = .ok value ↔
      ∃ pairs, Keyed items pairs ∧ value = .hash none (Dict.ofList pairs) := by
  rw [hashLiteral]
  constructor
  · intro accepted
    split at accepted
    · cases accepted
    · cases paired : keyedPairs items with
      | error fault =>
          rw [paired] at accepted
          cases accepted
      | ok pairs =>
          rw [paired] at accepted
          cases accepted
          exact ⟨pairs, keyedPairs_ok.mp paired, rfl⟩
  · rintro ⟨pairs, keyed, rfl⟩
    have even := keyed.even_length
    rw [if_neg (by omega), keyedPairs_ok.mpr keyed]
    rfl

theorem get?_ofList (pairs : List (String × Value)) (key : String) :
    (Dict.ofList pairs).get? key = lastValue? pairs key := by
  rw [Dict.ofList, Dict.get?_insertAll, Dict.get?, Option.or_none, lastValue?]

theorem closeSequence_ok {bracket : Bracket} {span : Span} {items : List Value} {value : Value} :
    closeSequence bracket span items = .ok value ↔ Encloses bracket items value := by
  cases bracket with
  | round =>
      constructor
      · rintro ⟨⟩
        exact .round items
      · rintro ⟨⟩
        rfl
  | square =>
      constructor
      · rintro ⟨⟩
        exact .square items
      · rintro ⟨⟩
        rfl
  | curly =>
      rw [closeSequence]
      constructor
      · intro accepted
        cases hashed : hashLiteral items with
        | error fault =>
            rw [hashed] at accepted
            cases accepted
        | ok hash =>
            rw [hashed] at accepted
            cases accepted
            obtain ⟨pairs, keyed, rfl⟩ := hashLiteral_ok.mp hashed
            exact .curly keyed (Dict.ascending_ofList pairs) (get?_ofList pairs)
      · intro encloses
        cases encloses with
        | @curly _ pairs entries keyed ascending counted =>
            have same : Dict.ofList pairs = entries :=
              (Dict.ascending_ofList pairs).ext ascending fun key =>
                (get?_ofList pairs key).trans (counted key).symm
            rw [hashLiteral_ok.mpr ⟨pairs, keyed, rfl⟩, same]
            rfl

/-! ## Completeness -/

def ReadState.resume : ReadState → List Token → ReadResult × List Token
  | complete form, rest => (.ok (some form), rest)
  | waiting opened, rest => readWith opened rest

theorem readWith_cons (opened : OpenForms) (token : Token) (rest : List Token) :
    readWith opened (token :: rest) =
      match readToken token opened with
      | .error e => (.error e, rest)
      | .ok state => state.resume rest := by
  cases opened <;> rw [readWith] <;> rcases readToken token _ with e | (form | opened) <;> rfl

theorem readWith_of_readToken {opened : OpenForms} {token : Token} {state : ReadState}
    (read : readToken token opened = .ok state) (rest : List Token) :
    readWith opened (token :: rest) = state.resume rest := by
  rw [readWith_cons, read]

/-- What it means for the reader to follow a derivation: an expression is handed to the innermost
open construct, and a sequence is added to the items of a bracket. -/
def Phrase.Followed (ks : List TokenKind) : Phrase → Prop
  | form value => ∀ (tokens rest : List Token) (opened : OpenForms), kinds tokens = ks →
      readWith opened (tokens ++ rest) = (attach value opened).resume rest
  | forms values => ∀ (tokens rest : List Token) (bracket : Bracket) (start : Span)
      (items : List Value) (outer : OpenForms), kinds tokens = ks →
      readWith (.sequence bracket start items :: outer) (tokens ++ rest) =
        readWith (.sequence bracket start (values.reverse ++ items) :: outer) rest

theorem readCloser_ok {bracket : Bracket} {items : List Value} {value : Value}
    (encloses : Encloses bracket items value) (token : Token) (start : Span) (outer : OpenForms) :
    readCloser bracket token (.sequence bracket start items.reverse :: outer) =
      .ok (attach value outer) := by
  have closed : closeSequence bracket (start.merge token.span) items = .ok value :=
    closeSequence_ok.mpr encloses
  rw [readCloser, if_pos rfl, List.reverse_reverse, closed]
  rfl

/-- The reader follows every derivation, whatever is open around it and whatever comes after. -/
theorem Derives.followed {phrase : Phrase} {ks : List TokenKind} (derived : Derives phrase ks) :
    phrase.Followed ks := by
  induction derived with
  | atom text =>
      intro tokens rest opened shown
      obtain ⟨token, rfl, kind⟩ := List.map_eq_singleton_iff.mp shown
      exact readWith_of_readToken (by rw [readToken, kind]) rest
  | @string text opener written meaning shape denotes =>
      intro tokens rest opened shown
      obtain ⟨token, rfl, kind⟩ := List.map_eq_singleton_iff.mp shown
      have unquoted : Text.unquote? text = some (.ofList meaning) :=
        Text.unquote?_eq_some.mpr ⟨opener, written, meaning, shape, denotes, rfl⟩
      exact readWith_of_readToken (by simp only [readToken, kind, unquoted]) rest
  | @bracketed bracket items value inside content encloses ih =>
      intro tokens rest opened shown
      obtain ⟨opening, others, rfl, openingKind, shown⟩ := List.map_eq_cons_iff.mp shown
      obtain ⟨middle, last, rfl, middleShown, ends⟩ := List.map_eq_append_iff.mp shown
      obtain ⟨closing, rfl, closingKind⟩ := List.map_eq_singleton_iff.mp ends
      have start : readToken opening opened =
          .ok (.waiting (.sequence bracket opening.span [] :: opened)) := by
        rw [readToken, openingKind]
      have stop : readToken closing (.sequence bracket opening.span items.reverse :: opened) =
          .ok (attach value opened) := by
        simp only [readToken, closingKind, readCloser_ok encloses]
      rw [List.cons_append, readWith_of_readToken start, ReadState.resume, List.append_assoc,
        ih middle _ bracket opening.span [] opened middleShown, List.append_nil, List.singleton_append,
        readWith_of_readToken stop]
  | @marked marker value operand content ih =>
      intro tokens rest opened shown
      obtain ⟨mark, others, rfl, markKind, shown⟩ := List.map_eq_cons_iff.mp shown
      have start : readToken mark opened = .ok (.waiting (.marked marker :: opened)) := by
        rw [readToken, markKind]
      rw [List.cons_append, readWith_of_readToken start, ReadState.resume,
        ih others rest (.marked marker :: opened) shown, attach]
  | nil =>
      intro tokens rest bracket start items outer shown
      obtain rfl := List.map_eq_nil_iff.mp shown
      rfl
  | @cons value values front back first rest firstIH restIH =>
      intro tokens after bracket start items outer shown
      obtain ⟨frontTokens, backTokens, rfl, frontShown, backShown⟩ :=
        List.map_eq_append_iff.mp shown
      rw [List.append_assoc, firstIH frontTokens _ _ frontShown, attach, ReadState.resume,
        restIH backTokens after bracket start (value :: items) outer backShown,
        List.reverse_cons, List.append_assoc, List.singleton_append]

end Lisp
