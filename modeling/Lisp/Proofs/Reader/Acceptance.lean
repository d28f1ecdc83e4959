import Lisp.Proofs.Reader.Grammar

/-! The reader accepts exactly what the grammar derives. -/

set_option autoImplicit false

namespace Lisp

def Accepts (opened : OpenForms) (tokens : List Token) : Prop :=
  ∃ value rest, readWith opened tokens = (.ok (some value), rest)

theorem readToken_of_accepts {opened : OpenForms} {token : Token} {rest : List Token}
    (accepts : Accepts opened (token :: rest)) : ∃ state, readToken token opened = .ok state := by
  obtain ⟨value, unread, read⟩ := accepts
  rw [readWith_cons] at read
  cases reached : readToken token opened with
  | error e =>
      rw [reached] at read
      cases read
  | ok state => exact ⟨state, rfl⟩

theorem Accepts.resume {opened opened' : OpenForms} {token : Token} {rest : List Token}
    (accepts : Accepts opened (token :: rest))
    (read : readToken token opened = .ok (.waiting opened')) : Accepts opened' rest := by
  obtain ⟨value, unread, accepted⟩ := accepts
  rw [readWith_of_readToken read] at accepted
  exact ⟨value, unread, accepted⟩

theorem not_accepts_nil (construct : OpenForm) (outer : OpenForms) :
    ¬ Accepts (construct :: outer) [] := by
  rintro ⟨value, rest, read⟩
  cases read

/-- Only a bracket that is open can be closed. -/
theorem closing_of_accepts {opened : OpenForms} {token : Token} {rest : List Token}
    {bracket : Bracket} (accepts : Accepts opened (token :: rest))
    (closing : token.kind = .closing bracket) :
    ∃ start items outer value, opened = .sequence bracket start items :: outer ∧
      Encloses bracket items.reverse value := by
  obtain ⟨state, read⟩ := readToken_of_accepts accepts
  simp only [readToken, closing] at read
  rcases opened with _ | ⟨⟨other, start, items⟩ | marker, outer⟩
  · cases read
  · rw [readCloser] at read
    split at read
    · next same =>
        subst same
        cases closed : closeSequence other (start.merge token.span) items.reverse with
        | error e =>
            rw [closed] at read
            cases read
        | ok value => exact ⟨start, items, outer, value, rfl, closeSequence_ok.mp closed⟩
    · cases read
  · cases read

/-- An expression stands at the front of the tokens. -/
def FormAhead (tokens : List Token) : Prop :=
  ∃ front rest value, tokens = front ++ rest ∧ Derives (.form value) (kinds front)

/-- The remaining items of a sequence and its closing bracket stand at the front of the tokens. -/
def SequenceAhead (bracket : Bracket) (items : List Value) (tokens : List Token) : Prop :=
  ∃ front closing rest values value, tokens = front ++ closing :: rest ∧
    closing.kind = .closing bracket ∧ Derives (.forms values) (kinds front) ∧
    Encloses bracket (items.reverse ++ values) value

/-- The reader completes no expression on these tokens without a derivation for what it reads. -/
structure Sound (tokens : List Token) : Prop where
  form : ∀ (opened : OpenForms) (token : Token) (rest : List Token), tokens = token :: rest →
    (∀ bracket, token.kind ≠ .closing bracket) → Accepts opened tokens → FormAhead tokens
  sequence : ∀ (bracket : Bracket) (start : Span) (items : List Value) (outer : OpenForms),
    Accepts (.sequence bracket start items :: outer) tokens → SequenceAhead bracket items tokens

theorem Derives.ne_nil {value : Value} {ks : List TokenKind} (derived : Derives (.form value) ks) :
    ks ≠ [] := by
  cases derived <;> simp

private theorem operand_ahead {marker : Marker} {opened : OpenForms} {tokens : List Token}
    (sound : Sound tokens) (accepts : Accepts (.marked marker :: opened) tokens) :
    FormAhead tokens := by
  cases tokens with
  | nil => exact absurd accepts (not_accepts_nil _ _)
  | cons token rest =>
      refine sound.form _ token rest rfl ?_ accepts
      -- No bracket is open directly around the operand, so none can be closed.
      intro bracket closing
      obtain ⟨start, items, outer, value, shape, -⟩ := closing_of_accepts accepts closing
      cases shape

private theorem form_ahead {opened : OpenForms} {token : Token} {rest : List Token}
    (sound : Sound rest) (notClosing : ∀ bracket, token.kind ≠ .closing bracket)
    (accepts : Accepts opened (token :: rest)) : FormAhead (token :: rest) := by
  cases kind : token.kind with
  | closing bracket => exact absurd kind (notClosing bracket)
  | atom text => exact ⟨[token], rest, .ofAtom text, rfl, by simp [kinds, kind, Derives.atom]⟩
  | string text =>
      obtain ⟨state, read⟩ := readToken_of_accepts accepts
      simp only [readToken, kind] at read
      cases unquoted : Text.unquote? text with
      | none =>
          rw [unquoted] at read
          cases read
      | some s =>
          obtain ⟨opener, written, meaning, shape, denotes, rfl⟩ := Text.unquote?_eq_some.mp unquoted
          refine ⟨[token], rest, .string (.ofList meaning), rfl, ?_⟩
          rw [kinds, List.map_singleton, kind]
          exact .string shape denotes
  | mark marker =>
      have read : readToken token opened = .ok (.waiting (.marked marker :: opened)) := by
        rw [readToken, kind]
      obtain ⟨operand, unread, value, rfl, derived⟩ := operand_ahead sound (accepts.resume read)
      refine ⟨token :: operand, unread, .list [.symbol marker.keyword, value], rfl, ?_⟩
      rw [kinds, List.map_cons, kind]
      exact .marked marker derived
  | opening bracket =>
      have read : readToken token opened =
          .ok (.waiting (.sequence bracket token.span [] :: opened)) := by
        rw [readToken, kind]
      obtain ⟨inside, closing, unread, values, value, rfl, closes, derived, encloses⟩ :=
        sound.sequence bracket token.span [] opened (accepts.resume read)
      refine ⟨token :: (inside ++ [closing]), unread, value, by simp, ?_⟩
      rw [kinds, List.map_cons, List.map_append, List.map_singleton, kind, closes]
      exact .bracketed derived encloses

private theorem sequence_ahead {bracket : Bracket} {start : Span} {items : List Value}
    {outer : OpenForms} {tokens : List Token}
    (sound : ∀ others, others.length < tokens.length → Sound others)
    (accepts : Accepts (.sequence bracket start items :: outer) tokens) :
    SequenceAhead bracket items tokens := by
  cases tokens with
  | nil => exact absurd accepts (not_accepts_nil _ _)
  | cons token rest =>
      by_cases closes : ∃ other, token.kind = .closing other
      · obtain ⟨other, closes⟩ := closes
        obtain ⟨_, _, _, value, shape, encloses⟩ := closing_of_accepts accepts closes
        cases shape
        exact ⟨[], token, rest, [], value, rfl, closes, .nil, by rwa [List.append_nil]⟩
      · have notClosing : ∀ other, token.kind ≠ .closing other :=
          fun other kind => closes ⟨other, kind⟩
        obtain ⟨front, unread, value, split, derived⟩ :=
          form_ahead (sound rest (Nat.lt_succ_self _)) notClosing accepts
        have shorter : unread.length < (token :: rest).length := by
          have frontNonempty : front ≠ [] := fun empty => derived.ne_nil (by rw [empty]; rfl)
          have positive := List.length_pos_of_ne_nil frontNonempty
          rw [split, List.length_append]
          omega
        -- By completeness the reader itself has followed the derivation of the first item.
        have onward : Accepts (.sequence bracket start (value :: items) :: outer) unread := by
          obtain ⟨result, last, read⟩ := accepts
          rw [split, derived.followed front unread _ rfl] at read
          exact ⟨result, last, read⟩
        obtain ⟨inside, closing, last, values, whole, rfl, closes, derivedRest, encloses⟩ :=
          (sound unread shorter).sequence bracket start (value :: items) outer onward
        refine ⟨front ++ inside, closing, last, value :: values, whole, by simp [split], closes, ?_,
          by simpa using encloses⟩
        rw [kinds, List.map_append]
        exact .cons derived derivedRest

/-- Whatever the reader completes has a derivation. -/
theorem reader_sound (tokens : List Token) : Sound tokens := by
  induction length : tokens.length using Nat.strongRecOn generalizing tokens with
  | _ n ih =>
      subst length
      have shorter : ∀ others : List Token, others.length < tokens.length → Sound others :=
        fun others less => ih others.length less others rfl
      constructor
      · rintro opened token rest rfl notClosing accepts
        exact form_ahead (shorter rest (Nat.lt_succ_self _)) notClosing accepts
      · intro bracket start items outer accepts
        exact sequence_ahead shorter accepts

/-! ## Single expressions -/

theorem readOne_of_derives {value : Value} {front : List Token}
    (derived : Derives (.form value) (kinds front)) (rest : List Token) :
    readOne (front ++ rest) = (.ok (some value), rest) :=
  derived.followed front rest [] rfl

theorem readOne_iff_derives {tokens rest : List Token} {value : Value} :
    readOne tokens = (.ok (some value), rest) ↔
      ∃ front, tokens = front ++ rest ∧ Derives (.form value) (kinds front) := by
  constructor
  · intro read
    have accepts : Accepts [] tokens := ⟨value, rest, read⟩
    cases tokens with
    | nil => cases read
    | cons token others =>
        have notClosing : ∀ bracket, token.kind ≠ .closing bracket := by
          intro bracket closing
          obtain ⟨start, items, outer, value, shape, -⟩ := closing_of_accepts accepts closing
          cases shape
        obtain ⟨front, unread, value', split, derived⟩ :=
          (reader_sound _).form [] token others rfl notClosing accepts
        have same := readOne_of_derives derived unread
        rw [← split, read] at same
        cases same
        exact ⟨front, split, derived⟩
  · rintro ⟨front, rfl, derived⟩
    exact readOne_of_derives derived rest

private theorem attach_waiting {form : Value} {opened opened' : OpenForms}
    (attached : attach form opened = .waiting opened') : opened' ≠ [] := by
  induction opened generalizing form with
  | nil => cases attached
  | cons construct outer ih =>
      cases construct with
      | marked marker => exact ih attached
      | sequence bracket start items =>
          cases attached
          exact List.cons_ne_nil _ _

private theorem readToken_waiting {token : Token} {opened opened' : OpenForms}
    (read : readToken token opened = .ok (.waiting opened')) : opened' ≠ [] := by
  rw [readToken] at read
  split at read
  · cases read
    exact List.cons_ne_nil _ _
  · next bracket _ =>
    rw [readCloser.eq_def] at read
    split at read
    · next other start items outer =>
        split at read
        · cases closed : closeSequence bracket (start.merge token.span) items.reverse with
          | error e =>
              rw [closed] at read
              cases read
          | ok value =>
              rw [closed] at read
              exact attach_waiting (Except.ok.inj read)
        · cases read
    · cases read
  · cases read
    exact List.cons_ne_nil _ _
  · split at read
    · exact attach_waiting (Except.ok.inj read)
    · cases read
  · exact attach_waiting (Except.ok.inj read)

private theorem readWith_ne_none {opened : OpenForms} {tokens rest : List Token}
    (unfinished : opened ≠ [] ∨ tokens ≠ []) : readWith opened tokens ≠ (.ok none, rest) := by
  induction tokens generalizing opened with
  | nil =>
      cases opened with
      | nil => simp at unfinished
      | cons construct outer => rintro ⟨⟩
  | cons token others ih =>
      intro read
      rw [readWith_cons] at read
      rcases reached : readToken token opened with e | (form | opened')
      · rw [reached] at read
        cases read
      · rw [reached] at read
        cases read
      · rw [reached] at read
        exact ih (.inl (readToken_waiting reached)) read

/-- Unless no token is left, the outcome is an expression or an error. -/
theorem readOne_ne_none {tokens rest : List Token} (nonempty : tokens ≠ []) :
    readOne tokens ≠ (.ok none, rest) :=
  readWith_ne_none (.inr nonempty)

/-! ## Sequences of expressions -/

theorem Derives.forms_cases {values : List Value} {tokens : List Token}
    (derived : Derives (.forms values) (kinds tokens)) :
    (values = [] ∧ tokens = []) ∨ ∃ value others front back, values = value :: others ∧
      tokens = front ++ back ∧ Derives (.form value) (kinds front) ∧
      Derives (.forms others) (kinds back) := by
  generalize shown : kinds tokens = ks at derived
  cases derived with
  | nil => exact .inl ⟨rfl, List.map_eq_nil_iff.mp shown⟩
  | @cons value others frontKinds backKinds first rest =>
      obtain ⟨front, back, rfl, rfl, rfl⟩ := List.map_eq_append_iff.mp shown
      exact .inr ⟨value, others, front, back, rfl, rfl, first, rest⟩

theorem Derives.length_rest {value : Value} {front : List Token}
    (derived : Derives (.form value) (kinds front)) (rest : List Token) :
    rest.length < (front ++ rest).length := by
  have nonempty : front ≠ [] := fun empty => derived.ne_nil (by rw [empty]; rfl)
  have positive := List.length_pos_of_ne_nil nonempty
  rw [List.length_append]
  omega

private theorem derives_nil_iff {values : List Value} :
    Derives (.forms values) (kinds []) ↔ values = [] := by
  constructor
  · intro derived
    rcases derived.forms_cases with ⟨empty, -⟩ | ⟨value, others, front, back, -, split, first, -⟩
    · exact empty
    · obtain ⟨rfl, -⟩ := List.append_eq_nil_iff.mp split.symm
      exact absurd rfl first.ne_nil
  · rintro rfl
    exact .nil

theorem readForms_nil (rounds : Nat) : readForms rounds [] = ([], none) := by
  cases rounds <;> rfl

theorem readForms_iff_derives {rounds : Nat} {tokens : List Token} {values : List Value}
    (enough : tokens.length ≤ rounds) :
    readForms rounds tokens = (values, none) ↔ Derives (.forms values) (kinds tokens) := by
  induction rounds generalizing tokens values with
  | zero =>
      obtain rfl := List.length_eq_zero_iff.mp (Nat.le_zero.mp enough)
      rw [readForms_nil, derives_nil_iff]
      simp [eq_comm]
  | succ rounds ih =>
      by_cases empty : tokens = []
      · subst empty
        rw [readForms_nil, derives_nil_iff]
        simp [eq_comm]
      · constructor
        · intro accepted
          rw [readForms] at accepted
          rcases read : readOne tokens with ⟨e | (_ | value), rest⟩
          · simp [read] at accepted
          · exact absurd read (readOne_ne_none empty)
          · obtain ⟨front, rfl, derived⟩ := readOne_iff_derives.mp read
            have shorter := derived.length_rest rest
            simp only [read, Prod.mk.injEq] at accepted
            obtain ⟨rfl, others⟩ := accepted
            rw [kinds, List.map_append]
            exact .cons derived ((ih (by omega)).mp (Prod.ext rfl others))
        · intro derived
          rcases derived.forms_cases with
            ⟨-, rfl⟩ | ⟨value, others, front, back, rfl, rfl, first, rest⟩
          · exact absurd rfl empty
          · have shorter := first.length_rest back
            rw [readForms, readOne_of_derives first back]
            simp only [(ih (by omega)).mpr rest]

theorem readAll_iff_derives {source : String} {values : List Value} :
    readAll source = .ok values ↔ Derives (.forms values) (kinds (tokenize source)) := by
  rw [← readForms_iff_derives (Nat.le_refl _), readAll, Script.ofText]
  rcases readForms (tokenize source).length (tokenize source) with ⟨forms, _ | e⟩ <;> simp

/-! ## Positions -/

/-- The tokens from position `start` up to position `stop` derive a value. -/
structure Spells (tokens : List Token) (start stop : Nat) (value : Value) : Prop where
  ordered : start ≤ stop
  inside : stop ≤ tokens.length
  derived : Derives (.form value) (kinds ((tokens.drop start).take (stop - start)))

theorem spells_of_drop_eq {tokens front rest : List Token} {start : Nat} {value : Value}
    (split : tokens.drop start = front ++ rest) (derived : Derives (.form value) (kinds front)) :
    rest = tokens.drop (start + front.length) ∧
      Spells tokens start (start + front.length) value := by
  have lengths := congrArg List.length split
  rw [List.length_drop, List.length_append] at lengths
  have shorter := derived.length_rest rest
  rw [List.length_append] at shorter
  have after : rest = tokens.drop (start + front.length) := by
    rw [← List.drop_drop, split, List.drop_left]
  refine ⟨after, by omega, by omega, ?_⟩
  rwa [split, Nat.add_sub_cancel_left, List.take_left]

theorem Spells.readOne {tokens : List Token} {start stop : Nat} {value : Value}
    (spells : Spells tokens start stop value) :
    readOne (tokens.drop start) = (.ok (some value), tokens.drop stop) := by
  have remaining : tokens.drop stop = (tokens.drop start).drop (stop - start) := by
    rw [List.drop_drop, Nat.add_sub_cancel' spells.ordered]
  have read := readOne_of_derives spells.derived (tokens.drop stop)
  rwa [remaining, List.take_append_drop, ← remaining] at read

/-- Reading at a position ends with a value just when tokens from there on derive it; the value
and the position after it are the only ones; and a whole text or list of tokens is read just when
it is a sequence of derivations. -/
theorem reader_accepts_grammar :
    (∀ (tokens : List Token) (start : Nat) (value : Value) (rest : List Token),
      readOne (tokens.drop start) = (.ok (some value), rest) ↔
        ∃ stop, rest = tokens.drop stop ∧ Spells tokens start stop value) ∧
    (∀ (tokens : List Token) (start stop stop' : Nat) (value value' : Value),
      Spells tokens start stop value → Spells tokens start stop' value' →
        stop = stop' ∧ value = value') ∧
    (∀ (tokens : List Token) (values : List Value),
      readForms tokens.length tokens = (values, none) ↔ Derives (.forms values) (kinds tokens)) ∧
    ∀ (source : String) (values : List Value),
      readAll source = .ok values ↔ Derives (.forms values) (kinds (tokenize source)) := by
  refine ⟨?_, ?_, fun _ _ => readForms_iff_derives (Nat.le_refl _), fun _ _ => readAll_iff_derives⟩
  · intro tokens start value rest
    constructor
    · intro read
      obtain ⟨front, split, derived⟩ := readOne_iff_derives.mp read
      exact ⟨start + front.length, spells_of_drop_eq split derived⟩
    · rintro ⟨stop, rfl, spells⟩
      exact spells.readOne
  · intro tokens start stop stop' value value' first second
    have same := first.readOne.symm.trans second.readOne
    obtain ⟨sameValue, sameRest⟩ := Prod.mk.inj same
    have lengths := congrArg List.length sameRest
    rw [List.length_drop, List.length_drop] at lengths
    have insideFirst := first.inside
    have insideSecond := second.inside
    exact ⟨by omega, by simpa using sameValue⟩

end Lisp
