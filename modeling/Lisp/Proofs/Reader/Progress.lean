import Lisp.Proofs.Reader.Acceptance
import Lisp.Proofs.Token.Partition

/-! The reader takes tokens one at a time and never looks beyond the last one taken. That token
completes the expression, or is to blame for the error; without such a token the reader takes all
that there are. -/

set_option autoImplicit false

namespace Lisp

/-! ## Open constructs and the tokens that they are made of -/

theorem Derives.forms_concat {values : List Value} {value : Value} {front back : List TokenKind}
    (first : Derives (.forms values) front) (last : Derives (.form value) back) :
    Derives (.forms (values ++ [value])) (front ++ back) := by
  generalize phrase : Phrase.forms values = forms at first
  induction first generalizing values with
  | nil =>
      cases phrase
      have derived := Derives.cons last .nil
      rwa [List.append_nil] at derived
  | cons head _ _ restIH =>
      cases phrase
      rw [List.append_assoc]
      exact .cons head (restIH rfl)
  | atom | string | bracketed | marked => cases phrase

/-- The tokens that have led to the open constructs: each construct starts with its bracket or mark,
and complete expressions follow a bracket. -/
inductive Accounts : List Token → OpenForms → Prop where
  | nothing : Accounts [] []
  | sequence {around inside : List Token} {opener : Token} {bracket : Bracket} {items : List Value}
      {outer : OpenForms} (before : Accounts around outer) (opens : opener.kind = .opening bracket)
      (content : Derives (.forms items.reverse) (kinds inside)) :
      Accounts (around ++ opener :: inside) (.sequence bracket opener.span items :: outer)
  | marked {around : List Token} {mark : Token} {marker : Marker} {outer : OpenForms}
      (before : Accounts around outer) (marks : mark.kind = .mark marker) :
      Accounts (around ++ [mark]) (.marked marker :: outer)

/-- The tokens taken so far account for where the reader stands. -/
def ReadState.AccountedBy (taken : List Token) : ReadState → Prop
  | complete form => Derives (.form form) (kinds taken)
  | waiting opened => Accounts taken opened

theorem Accounts.attach {around inside : List Token} {opened : OpenForms} {form : Value}
    (accounts : Accounts around opened) (derived : Derives (.form form) (kinds inside)) :
    (attach form opened).AccountedBy (around ++ inside) := by
  induction accounts generalizing inside form with
  | nothing => exact derived
  | @sequence around within opener bracket items outer before opens content _ =>
      have longer := content.forms_concat derived
      rw [← List.reverse_cons, kinds, kinds, ← List.map_append] at longer
      rw [Lisp.attach, List.append_assoc]
      exact .sequence before opens longer
  | @marked around mark marker outer _ marks ih =>
      rw [Lisp.attach, List.append_assoc]
      refine ih ?_
      rw [kinds, List.singleton_append, List.map_cons, marks]
      exact .marked marker derived

/-- Every token that the reader goes on after leaves it accounted for. -/
theorem Accounts.readToken {taken : List Token} {opened : OpenForms} {token : Token}
    {state : ReadState} (accounts : Accounts taken opened)
    (read : readToken token opened = .ok state) : state.AccountedBy (taken ++ [token]) := by
  rw [Lisp.readToken] at read
  cases kind : token.kind with
  | opening bracket =>
      rw [kind] at read
      cases read
      exact .sequence accounts kind .nil
  | closing bracket =>
      simp only [kind] at read
      rw [readCloser.eq_def] at read
      split at read
      · next other start items outer =>
          split_ifs at read with same
          subst same
          cases closed : closeSequence other (start.merge token.span) items.reverse with
          | error e =>
              rw [closed] at read
              cases read
          | ok value =>
              rw [closed] at read
              cases read
              cases accounts with
              | @sequence around inside opener _ _ _ before opens content =>
                  have derived : Derives (.form value) (kinds (opener :: inside ++ [token])) := by
                    rw [kinds, List.cons_append, List.map_cons, List.map_append, opens,
                      List.map_singleton, kind]
                    exact .bracketed content (closeSequence_ok.mp closed)
                  rw [List.append_assoc]
                  exact before.attach derived
      · cases read
  | mark marker =>
      rw [kind] at read
      cases read
      exact .marked accounts kind
  | string text =>
      simp only [kind] at read
      cases unquoted : Text.unquote? text with
      | none =>
          rw [unquoted] at read
          cases read
      | some s =>
          rw [unquoted] at read
          cases read
          obtain ⟨opener, written, meaning, shape, denotes, rfl⟩ :=
            Text.unquote?_eq_some.mp unquoted
          refine accounts.attach ?_
          rw [kinds, List.map_singleton, kind]
          exact .string shape denotes
  | atom text =>
      rw [kind] at read
      cases read
      refine accounts.attach ?_
      rw [kinds, List.map_singleton, kind]
      exact .atom text

/-! ## Errors -/

/-- What would have been allowed in the place of a closing bracket. -/
def OpenForms.expectation : OpenForms → Expectation
  | .sequence bracket _ _ :: _ => .closer bracket
  | _ => .expression

/-- The bracket is the one that closes the innermost open construct. -/
def OpenForms.ClosedBy (bracket : Bracket) : OpenForms → Prop
  | .sequence opened _ _ :: _ => opened = bracket
  | _ => False

/-- The errors for which a token is to blame, after the tokens taken before it. -/
inductive Blamed (taken : List Token) (opened : OpenForms) (token : Token) : ParseError → Prop where
  | closer {bracket : Bracket} (closes : token.kind = .closing bracket)
      (mismatched : ¬ opened.ClosedBy bracket) :
      Blamed taken opened token (.unexpectedToken token opened.expectation)
  | string {text : String} (kind : token.kind = .string text)
      (unclosed : Text.unquote? text = none) :
      Blamed taken opened token (.unterminatedString token.span)
  | hash {around inside : List Token} {brace : Token} {items : List Value} {fault : HashFault}
      (split : taken = around ++ brace :: inside) (opens : brace.kind = .opening .curly)
      (content : Derives (.forms items) (kinds inside)) (closes : token.kind = .closing .curly)
      (faulty : hashLiteral items = .error fault) :
      Blamed taken opened token (.invalidHash (brace.span.merge token.span) fault)

theorem closeSequence_error {bracket : Bracket} {span : Span} {items : List Value} {e : ParseError}
    (failed : closeSequence bracket span items = .error e) :
    bracket = .curly ∧ ∃ fault, hashLiteral items = .error fault ∧ e = .invalidHash span fault := by
  cases bracket with
  | round | square => cases failed
  | curly =>
      rw [closeSequence] at failed
      cases hashed : hashLiteral items with
      | error fault =>
          rw [hashed] at failed
          cases failed
          exact ⟨rfl, fault, rfl, rfl⟩
      | ok value =>
          rw [hashed] at failed
          cases failed

theorem Accounts.blamed {taken : List Token} {opened : OpenForms} {token : Token} {e : ParseError}
    (accounts : Accounts taken opened) (failed : Lisp.readToken token opened = .error e) :
    Blamed taken opened token e := by
  rw [Lisp.readToken] at failed
  cases kind : token.kind with
  | opening bracket | mark marker | atom text =>
      rw [kind] at failed
      cases failed
  | string text =>
      simp only [kind] at failed
      cases unquoted : Text.unquote? text with
      | none =>
          rw [unquoted] at failed
          cases failed
          exact .string kind unquoted
      | some s =>
          rw [unquoted] at failed
          cases failed
  | closing bracket =>
      simp only [kind] at failed
      cases accounts with
      | nothing =>
          cases failed
          exact .closer kind id
      | marked =>
          cases failed
          exact .closer kind id
      | @sequence around inside opener other items outer before opens content =>
          rw [readCloser] at failed
          split_ifs at failed with same
          · subst same
            cases closed : closeSequence other (opener.span.merge token.span) items.reverse with
            | ok value =>
                rw [closed] at failed
                cases failed
            | error cause =>
                rw [closed] at failed
                cases failed
                obtain ⟨rfl, fault, faulty, rfl⟩ := closeSequence_error closed
                exact .hash rfl opens content kind faulty
          · cases failed
            exact .closer kind same

/-! ## Runs -/

/-- The reader takes the tokens and still waits, for what is open then. -/
inductive Waits : OpenForms → List Token → OpenForms → Prop where
  | nothing (opened : OpenForms) : Waits opened [] opened
  | token {token : Token} {rest : List Token} {opened next last : OpenForms}
      (read : readToken token opened = .ok (.waiting next)) (others : Waits next rest last) :
      Waits opened (token :: rest) last

/-- The token ends the reading of an expression. -/
inductive Settles (token : Token) (opened : OpenForms) : ReadResult → Prop where
  | form {form : Value} (read : readToken token opened = .ok (.complete form)) :
      Settles token opened (.ok (some form))
  | error {e : ParseError} (failed : readToken token opened = .error e) :
      Settles token opened (.error e)

theorem Waits.readWith_append {opened last : OpenForms} {front : List Token}
    (waits : Waits opened front last) (rest : List Token) :
    readWith opened (front ++ rest) = readWith last rest := by
  induction waits with
  | nothing => rfl
  | token read _ ih => rw [List.cons_append, readWith_of_readToken read, ReadState.resume, ih]

theorem Waits.accounts {taken front : List Token} {opened last : OpenForms}
    (accounts : Accounts taken opened) (waits : Waits opened front last) :
    Accounts (taken ++ front) last := by
  induction waits generalizing taken with
  | nothing => rwa [List.append_nil]
  | token read _ ih =>
      have next := ih (accounts.readToken read)
      rwa [List.append_assoc, List.singleton_append] at next

theorem Settles.readWith_cons {token : Token} {opened : OpenForms} {outcome : ReadResult}
    (settles : Settles token opened outcome) (rest : List Token) :
    readWith opened (token :: rest) = (outcome, rest) := by
  cases settles with
  | form read => rw [readWith_of_readToken read, ReadState.resume]
  | error failed => rw [Lisp.readWith_cons, failed]

theorem waits_or_settles (opened : OpenForms) (tokens : List Token) :
    (∃ last, Waits opened tokens last) ∨ ∃ front token rest last outcome,
      tokens = front ++ token :: rest ∧ Waits opened front last ∧ Settles token last outcome := by
  induction tokens generalizing opened with
  | nil => exact .inl ⟨opened, .nothing opened⟩
  | cons token rest ih =>
      cases read : readToken token opened with
      | error e => exact .inr ⟨[], token, rest, opened, .error e, rfl, .nothing opened, .error read⟩
      | ok state =>
          cases state with
          | complete form =>
              exact .inr
                ⟨[], token, rest, opened, .ok (some form), rfl, .nothing opened, .form read⟩
          | waiting next =>
              rcases ih next with
                ⟨last, waits⟩ | ⟨front, ending, after, last, outcome, rfl, waits, settles⟩
              · exact .inl ⟨last, .token read waits⟩
              · exact .inr ⟨token :: front, ending, after, last, outcome, rfl, .token read waits,
                  settles⟩

/-- Reading an expression takes all tokens and finds it unfinished, or it ends with a token, and
then the tokens after that one have no part in it. -/
theorem readOne_cases {tokens : List Token} (nonempty : tokens ≠ []) :
    (∃ construct outer, Accounts tokens (construct :: outer) ∧
      readOne tokens = (.error (.unexpectedEnd construct.awaited), [])) ∨
    ∃ front token rest opened outcome, tokens = front ++ token :: rest ∧ Accounts front opened ∧
      Settles token opened outcome ∧
        ∀ others, readOne (front ++ token :: others) = (outcome, others) := by
  rcases waits_or_settles [] tokens with
    ⟨last, waits⟩ | ⟨front, token, rest, opened, outcome, split, waits, settles⟩
  · left
    have accounts : Accounts tokens last := waits.accounts .nothing
    have read := waits.readWith_append []
    rw [List.append_nil] at read
    cases last with
    | nil =>
        cases accounts
        exact absurd rfl nonempty
    | cons construct outer => exact ⟨construct, outer, accounts, read⟩
  · right
    refine ⟨front, token, rest, opened, outcome, split, waits.accounts .nothing, settles, ?_⟩
    intro others
    rw [readOne, waits.readWith_append, settles.readWith_cons]

theorem Settles.ne_none {token : Token} {opened : OpenForms} {outcome : ReadResult}
    (settles : Settles token opened outcome) : outcome ≠ .ok none := by
  cases settles <;> nofun

theorem Settles.blamed {taken : List Token} {token : Token} {opened : OpenForms} {e : ParseError}
    (settles : Settles token opened (.error e)) (accounts : Accounts taken opened) :
    Blamed taken opened token e := by
  cases settles with
  | error failed => exact accounts.blamed failed

/-- While tokens are left, reading takes at least one of them. -/
theorem readOne_progress {tokens : List Token} (nonempty : tokens ≠ []) :
    (readOne tokens).1 ≠ .ok none ∧ (readOne tokens).2.length < tokens.length := by
  rcases readOne_cases nonempty with
    ⟨construct, outer, -, read⟩ | ⟨front, token, rest, opened, outcome, rfl, -, settles, read⟩
  · rw [read]
    exact ⟨nofun, List.length_pos_of_ne_nil nonempty⟩
  · rw [read]
    refine ⟨settles.ne_none, ?_⟩
    rw [List.length_append, List.length_cons]
    dsimp only
    omega

/-! ## Positions -/

/-- The outcome of reading the expression at a position, and the position after it. -/
def readAt (tokens : List Token) (start : Nat) : ReadResult × Nat :=
  ((readOne (tokens.drop start)).1, tokens.length - (readOne (tokens.drop start)).2.length)

/-- Tokens stand in the order of their spans. -/
structure InOrder (tokens : List Token) : Prop where
  forward : ∀ token ∈ tokens, token.span.start ≤ token.span.stop
  apart : tokens.Pairwise fun first second => first.span.stop ≤ second.span.start

/-- The brackets at two positions enclose items that are no hash, and the span covers both brackets.
For tokens in order it starts with the one and ends with the other. -/
structure FaultyHash (tokens : List Token) (place last : Nat) (span : Span) (fault : HashFault) :
    Prop where
  enclosed : ∃ brace closer items, tokens[place]? = some brace ∧ brace.kind = .opening .curly ∧
    tokens[last]? = some closer ∧ closer.kind = .closing .curly ∧
    Derives (.forms items) (kinds ((tokens.take last).drop (place + 1))) ∧
    hashLiteral items = .error fault ∧
    span = ⟨min brace.span.start closer.span.start, max brace.span.stop closer.span.stop⟩ ∧
    (InOrder tokens → span = ⟨brace.span.start, closer.span.stop⟩)

/-- What the outcome of reading at a position depends on, and what it says of the tokens taken. -/
structure ReadsOnline (tokens : List Token) (start stop : Nat) (outcome : ReadResult) : Prop where
  answers : outcome ≠ .ok none
  advances : start < stop
  inside : stop ≤ tokens.length
  online : (∀ expected, outcome ≠ .error (.unexpectedEnd expected)) → ∀ others : List Token,
    (∀ place, start ≤ place → place < stop → others[place]? = tokens[place]?) →
      readAt others start = (outcome, stop)
  exhausts : ∀ expected, outcome = .error (.unexpectedEnd expected) → stop = tokens.length
  unexpected : ∀ found expected, outcome = .error (.unexpectedToken found expected) →
    tokens[stop - 1]? = some found ∧ found.kind.isCloser = true
  unterminated : ∀ span, outcome = .error (.unterminatedString span) →
    ∃ token text, tokens[stop - 1]? = some token ∧ token.kind = .string text ∧ span = token.span
  malformed : ∀ span fault, outcome = .error (.invalidHash span fault) →
    ∃ place, start ≤ place ∧ place < stop - 1 ∧ FaultyHash tokens place (stop - 1) span fault

theorem InOrder.merge_eq {tokens : List Token} (ordered : InOrder tokens) {place last : Nat}
    {first second : Token} (before : place < last) (here : tokens[place]? = some first)
    (there : tokens[last]? = some second) :
    first.span.merge second.span = ⟨first.span.start, second.span.stop⟩ := by
  obtain ⟨inside, rfl⟩ := List.getElem?_eq_some_iff.mp here
  obtain ⟨insideLast, rfl⟩ := List.getElem?_eq_some_iff.mp there
  have apart := List.pairwise_iff_getElem.mp ordered.apart place last inside insideLast before
  have forward := ordered.forward _ (List.getElem_mem inside)
  have forwardLast := ordered.forward _ (List.getElem_mem insideLast)
  rw [Span.merge, Span.mk.injEq]
  omega

theorem inOrder_tokenize (source : String) : InOrder (tokenize source) :=
  have partitions := tokenize_partitions source
  ⟨fun token present => (partitions.nonempty token present).le, partitions.ordered⟩

/-- Tokens that agree from a position on, as far as some were taken there, go on with the same
tokens. -/
theorem drop_eq_append {tokens others taken rest : List Token} {start : Nat}
    (split : tokens.drop start = taken ++ rest)
    (agree : ∀ place, start ≤ place → place < start + taken.length →
      others[place]? = tokens[place]?) :
    others.drop start = taken ++ others.drop (start + taken.length) := by
  have same : (others.drop start).take taken.length = taken := by
    refine List.ext_getElem? fun i => ?_
    rw [List.getElem?_take]
    split_ifs with inside
    · have here := agree (start + i) (Nat.le_add_right _ _) (Nat.add_lt_add_left inside _)
      rw [List.getElem?_drop, here, ← List.getElem?_drop, split, List.getElem?_append_left inside]
    · rw [List.getElem?_eq_none (Nat.le_of_not_lt inside)]
  rw [← List.drop_drop]
  conv_lhs => rw [← List.take_append_drop taken.length (others.drop start), same]

theorem readAt_eq {tokens taken rest : List Token} {start : Nat} {outcome : ReadResult}
    (split : tokens.drop start = taken ++ rest) (nonempty : taken ≠ [])
    (read : readOne (taken ++ rest) = (outcome, rest)) :
    readAt tokens start = (outcome, start + taken.length) := by
  have lengths := congrArg List.length split
  have positive := List.length_pos_of_ne_nil nonempty
  rw [List.length_drop, List.length_append] at lengths
  rw [readAt, split, read, Prod.mk.injEq]
  exact ⟨rfl, by dsimp only; omega⟩

theorem getElem?_of_drop_eq {tokens front rest : List Token} {token : Token} {start : Nat}
    (split : tokens.drop start = front ++ token :: rest) :
    tokens[start + front.length]? = some token := by
  rw [← List.getElem?_drop, split, List.getElem?_append_right (Nat.le_refl _), Nat.sub_self]
  rfl

theorem between_of_drop_eq {tokens around inside rest : List Token} {brace token : Token}
    {start : Nat} (split : tokens.drop start = around ++ brace :: inside ++ token :: rest) :
    (tokens.take (start + (around ++ brace :: inside).length)).drop (start + around.length + 1) =
      inside := by
  have front : tokens.drop (start + around.length + 1) = inside ++ token :: rest := by
    rw [Nat.add_assoc, ← List.drop_drop, split, List.append_assoc, List.drop_append,
      List.drop_eq_nil_of_le (Nat.le_succ _), Nat.add_sub_cancel_left]
    rfl
  have length : start + (around ++ brace :: inside).length - (start + around.length + 1) =
      inside.length := by
    rw [List.length_append, List.length_cons]
    omega
  rw [List.drop_take, front, length, List.take_left]

theorem Blamed.faultyHash {tokens taken rest : List Token} {start : Nat} {opened : OpenForms}
    {token : Token} {span : Span} {fault : HashFault}
    (blamed : Blamed taken opened token (.invalidHash span fault))
    (split : tokens.drop start = taken ++ token :: rest) :
    ∃ place, start ≤ place ∧ place < start + taken.length ∧
      FaultyHash tokens place (start + taken.length) span fault := by
  cases blamed with
  | @hash around inside brace items _ shape opens content closes faulty =>
      subst shape
      have here : tokens[start + around.length]? = some brace := by
        rw [List.append_assoc, List.cons_append] at split
        exact getElem?_of_drop_eq split
      have there := getElem?_of_drop_eq split
      have before : start + around.length < start + (around ++ brace :: inside).length := by
        rw [List.length_append, List.length_cons]
        omega
      refine ⟨start + around.length, Nat.le_add_right _ _, before, ?_⟩
      refine ⟨brace, token, items, here, opens, there, closes, ?_, faulty, rfl, fun ordered => ?_⟩
      · rwa [between_of_drop_eq split]
      · exact ordered.merge_eq before here there

theorem readsOnline {tokens : List Token} {start : Nat} (before : start < tokens.length) :
    ReadsOnline tokens start (readAt tokens start).2 (readAt tokens start).1 := by
  have nonempty : tokens.drop start ≠ [] := by
    rw [ne_eq, List.drop_eq_nil_iff]
    omega
  rcases readOne_cases nonempty with
    ⟨construct, outer, -, read⟩ |
    ⟨front, token, rest, opened, outcome, split, accounts, settles, read⟩
  · rw [readAt, read]
    dsimp only [List.length_nil, Nat.sub_zero]
    constructor
    case answers | unexpected | unterminated | malformed => nofun
    case advances => exact before
    case inside => exact Nat.le_refl _
    case online => exact fun finished => absurd rfl (finished _)
    case exhausts => exact fun _ _ => rfl
  · have settled : ∀ others : List Token, others.drop start =
        front ++ [token] ++ others.drop (start + (front ++ [token]).length) →
          readAt others start = (outcome, start + (front ++ [token]).length) := by
      intro others same
      refine readAt_eq same (by simp) ?_
      rw [List.append_assoc, List.singleton_append, read]
    have whole : tokens.drop start = front ++ [token] ++ rest := by simpa using split
    have here := getElem?_of_drop_eq split
    have lengths := congrArg List.length split
    rw [List.length_drop, List.length_append, List.length_cons] at lengths
    rw [settled tokens (drop_eq_append whole fun _ _ _ => rfl)]
    have last : start + (front ++ [token]).length - 1 = start + front.length := by simp
    constructor
    case answers => exact settles.ne_none
    case advances => simp
    case inside =>
      rw [List.length_append, List.length_singleton]
      omega
    case online => exact fun _ others agree => settled others (drop_eq_append whole agree)
    case exhausts =>
      rintro expected rfl
      cases settles.blamed accounts
    case unexpected =>
      rintro found expected rfl
      rw [last]
      cases settles.blamed accounts with
      | closer closes _ => exact ⟨here, by rw [closes]; rfl⟩
    case unterminated =>
      rintro span rfl
      rw [last]
      cases settles.blamed accounts with
      | string kind _ => exact ⟨token, _, here, kind, rfl⟩
    case malformed =>
      rintro span fault rfl
      rw [last]
      exact (settles.blamed accounts).faultyHash split

/-! ## Repeated reading -/

theorem readSteps_ends {rounds : Nat} {tokens : List Token} (enough : tokens.length < rounds) :
    ∃ calls, readSteps rounds tokens = calls ++ [(.ok none, [])] ∧ calls.length ≤ tokens.length ∧
      ∀ call ∈ calls, call.1 ≠ .ok none := by
  induction rounds generalizing tokens with
  | zero => exact absurd enough (Nat.not_lt_zero _)
  | succ rounds ih =>
      by_cases empty : tokens = []
      · subst empty
        exact ⟨[], rfl, Nat.le_refl _, nofun⟩
      · obtain ⟨answers, shorter⟩ := readOne_progress empty
        have again : readSteps (rounds + 1) tokens =
            readOne tokens :: readSteps rounds (readOne tokens).2 := by
          rw [readSteps]
          split
          · next rest read => exact absurd (congrArg Prod.fst read) answers
          · rfl
        obtain ⟨calls, others, few, unended⟩ := ih (by omega : (readOne tokens).2.length < rounds)
        refine ⟨readOne tokens :: calls, ?_, ?_, List.forall_mem_cons.mpr ⟨answers, unended⟩⟩
        · rw [again, others, List.cons_append]
        · rw [List.length_cons]
          omega

/-- Reading takes at least one token, whether it succeeds or fails, and depends on no token after
those that it takes. An error is about the last token taken, or about the hash that ends there, or
else all tokens have been taken. So going on after errors comes to the end. The tokens of a text are
in order, so the span of a faulty hash in it reaches from bracket to bracket. -/
theorem reader_online :
    (∀ source : String, InOrder (tokenize source)) ∧
    ∀ tokens : List Token,
      (∀ start, start < tokens.length →
        ReadsOnline tokens start (readAt tokens start).2 (readAt tokens start).1) ∧
      ∃ calls, readSteps (tokens.length + 1) tokens = calls ++ [(.ok none, [])] ∧
        calls.length ≤ tokens.length ∧ ∀ call ∈ calls, call.1 ≠ .ok none :=
  ⟨inOrder_tokenize, fun _ => ⟨fun _ before => readsOnline before,
    readSteps_ends (Nat.lt_succ_self _)⟩⟩

/-- The brackets of a hash, the closing one placed before the opening one. -/
private def turnedHash : List Token :=
  [⟨.opening .curly, ⟨10, 11⟩⟩, ⟨.atom "a", ⟨5, 6⟩⟩, ⟨.closing .curly, ⟨0, 1⟩⟩]

/-- The span of a faulty hash covers both brackets also where they are not in order, and then it does
not reach from the opening one to the closing one. -/
theorem readAt_turnedHash :
    readAt turnedHash 0 = (.error (.invalidHash ⟨0, 11⟩ .oddCount), 3) ∧
      ¬ ∃ place brace closer, place < 2 ∧ turnedHash[place]? = some brace ∧
        brace.kind = .opening .curly ∧ turnedHash[2]? = some closer ∧
          (⟨0, 11⟩ : Span) = ⟨brace.span.start, closer.span.stop⟩ := by
  refine ⟨rfl, ?_⟩
  rintro ⟨place, brace, closer, -, -, -, there, same⟩
  cases there
  have stops : 11 = 1 := congrArg Span.stop same
  omega

/-- The hash that fails is not the outermost bracket, and what follows it stays unread. -/
example : readAt (tokenize "(a \x7bb\x7d c)") 0 = (.error (.invalidHash ⟨3, 6⟩ .oddCount), 5) := rfl

end Lisp
