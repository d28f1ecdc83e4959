import Lisp.Proofs.Reader.Progress
import Lisp.Proofs.Reader.Splitting
import Lisp.Proofs.Repl.Regions

/-! Which entries are whole. What reads to its end is judged to be whole, and in what is judged to
be whole all brackets and strings are closed, so reading it does not fail for one of them. -/

set_option autoImplicit false

namespace Lisp.Repl

/-! ## Nesting -/

def isBracket : TokenKind → Bool
  | .opening _ | .closing _ => true
  | .mark _ | .string _ | .atom _ => false

/-- Every bracket among the tokens is closed by one of its own kind, and they are nested. -/
inductive Nested : List TokenKind → Prop where
  | nil : Nested []
  | other {kind : TokenKind} {ks : List TokenKind} (noBracket : isBracket kind = false)
      (rest : Nested ks) : Nested (kind :: ks)
  | bracketed (bracket : Bracket) {inside rest : List TokenKind} (inner : Nested inside)
      (others : Nested rest) : Nested (.opening bracket :: (inside ++ .closing bracket :: rest))

/-- The tokens close the open brackets, the innermost first, and otherwise are nested. -/
inductive Closes : List Bracket → List TokenKind → Prop where
  | nested {ks : List TokenKind} (nested : Nested ks) : Closes [] ks
  | bracket (bracket : Bracket) {outer : List Bracket} {inside rest : List TokenKind}
      (inner : Nested inside) (others : Closes outer rest) :
      Closes (bracket :: outer) (inside ++ .closing bracket :: rest)

theorem Nested.append {front back : List TokenKind} (first : Nested front) (second : Nested back) :
    Nested (front ++ back) := by
  induction first with
  | nil => exact second
  | other noBracket _ ih => exact .other noBracket ih
  | bracketed bracket inner _ _ ih =>
      rw [List.cons_append, List.append_assoc]
      exact .bracketed bracket inner ih

theorem Closes.other {opened : List Bracket} {kind : TokenKind} {ks : List TokenKind}
    (closes : Closes opened ks) (noBracket : isBracket kind = false) :
    Closes opened (kind :: ks) := by
  cases closes with
  | nested nested => exact .nested (.other noBracket nested)
  | bracket bracket inner others =>
      rw [← List.cons_append]
      exact .bracket bracket (.other noBracket inner) others

theorem Closes.opening {bracket : Bracket} {opened : List Bracket} {ks : List TokenKind}
    (closes : Closes (bracket :: opened) ks) : Closes opened (.opening bracket :: ks) := by
  cases closes with
  | bracket _ inner others =>
      cases others with
      | nested nested => exact .nested (.bracketed bracket inner nested)
      | bracket next innerNext others =>
          have whole := Nested.bracketed bracket inner innerNext
          have closes := Closes.bracket next whole others
          simpa using closes

/-- Expressions are nested. -/
theorem Derives.nested {phrase : Phrase} {ks : List TokenKind} (derived : Derives phrase ks) :
    Nested ks := by
  induction derived with
  | atom | string => exact .other rfl .nil
  | bracketed _ _ ih => exact .bracketed _ ih .nil
  | marked _ _ ih => exact .other rfl ih
  | nil => exact .nil
  | cons _ _ firstIH restIH => exact firstIH.append restIH

/-! ## Judging tokens -/

theorem judgeTokens_other {token : Token} (noBracket : isBracket token.kind = false)
    (accepted : Accepted token.kind) (opened : List Bracket) (rest : List Token) :
    judgeTokens opened (token :: rest) = judgeTokens opened rest := by
  rw [judgeTokens]
  cases kind : token.kind with
  | opening | closing =>
      rw [kind] at noBracket
      cases noBracket
  | string text =>
      rw [kind] at accepted
      exact if_pos accepted
  | mark | atom => rfl

theorem judgeTokens_nested {front : List Token} (nested : Nested (kinds front))
    (accepted : ∀ kind ∈ kinds front, Accepted kind) (opened : List Bracket) (rest : List Token) :
    judgeTokens opened (front ++ rest) = judgeTokens opened rest := by
  generalize shown : kinds front = ks at nested accepted
  induction nested generalizing front opened rest with
  | nil =>
      obtain rfl := List.map_eq_nil_iff.mp shown
      rfl
  | other noBracket _ ih =>
      obtain ⟨token, others, rfl, rfl, othersShown⟩ := List.map_eq_cons_iff.mp shown
      obtain ⟨first, acceptedOthers⟩ := List.forall_mem_cons.mp accepted
      rw [List.cons_append, judgeTokens_other noBracket first,
        ih opened rest othersShown acceptedOthers]
  | bracketed bracket _ _ innerIH othersIH =>
      obtain ⟨opener, others, rfl, opens, othersShown⟩ := List.map_eq_cons_iff.mp shown
      obtain ⟨inside, last, rfl, insideShown, lastShown⟩ := List.map_eq_append_iff.mp othersShown
      obtain ⟨closer, after, rfl, closes, afterShown⟩ := List.map_eq_cons_iff.mp lastShown
      obtain ⟨-, accepted⟩ := List.forall_mem_cons.mp accepted
      obtain ⟨acceptedInside, accepted⟩ := List.forall_mem_append.mp accepted
      obtain ⟨-, acceptedAfter⟩ := List.forall_mem_cons.mp accepted
      rw [List.cons_append, judgeTokens_opening opens, List.append_assoc,
        innerIH _ _ insideShown acceptedInside, List.cons_append, judgeTokens_closing closes]
      dsimp only
      rw [if_pos rfl, othersIH opened rest afterShown acceptedAfter]

theorem closes_of_judgeTokens {opened : List Bracket} {tokens : List Token}
    (valid : judgeTokens opened tokens = .valid) :
    Closes opened (kinds tokens) ∧ ∀ kind ∈ kinds tokens, Accepted kind := by
  induction tokens generalizing opened with
  | nil =>
      cases opened with
      | nil => exact ⟨.nested .nil, List.forall_mem_nil _⟩
      | cons => cases valid
  | cons token rest ih =>
      rw [kinds, List.map_cons, List.forall_mem_cons, ← kinds]
      cases kind : token.kind with
      | opening bracket =>
          rw [judgeTokens_opening kind] at valid
          obtain ⟨closes, accepted⟩ := ih valid
          exact ⟨closes.opening, trivial, accepted⟩
      | closing bracket =>
          rw [judgeTokens_closing kind] at valid
          cases opened with
          | nil => cases valid
          | cons top outer =>
              dsimp only at valid
              split_ifs at valid with same
              obtain ⟨closes, accepted⟩ := ih valid
              subst same
              exact ⟨.bracket top .nil closes, trivial, accepted⟩
      | string text =>
          simp only [judgeTokens, kind] at valid
          split_ifs at valid with closed
          obtain ⟨closes, accepted⟩ := ih valid
          exact ⟨closes.other rfl, closed, accepted⟩
      | mark | atom =>
          simp only [judgeTokens, kind] at valid
          obtain ⟨closes, accepted⟩ := ih valid
          exact ⟨closes.other rfl, trivial, accepted⟩

theorem judgeTokens_eq_valid_iff {tokens : List Token} :
    judgeTokens [] tokens = .valid ↔
      Nested (kinds tokens) ∧ ∀ kind ∈ kinds tokens, Accepted kind := by
  constructor
  · intro valid
    obtain ⟨closes, accepted⟩ := closes_of_judgeTokens valid
    cases closes with
    | nested nested => exact ⟨nested, accepted⟩
  · rintro ⟨nested, accepted⟩
    have judged := judgeTokens_nested nested accepted [] []
    rwa [List.append_nil] at judged

/-- Expressions do not change what is open. -/
theorem judgeTokens_derives {phrase : Phrase} {front : List Token}
    (derived : Derives phrase (kinds front)) (opened : List Bracket) (rest : List Token) :
    judgeTokens opened (front ++ rest) = judgeTokens opened rest :=
  judgeTokens_nested (Derives.nested derived) derived.accepted opened rest

/-! ## Errors in whole entries -/

def bracket? : OpenForm → Option Bracket
  | .sequence bracket _ _ => some bracket
  | .marked _ => none

/-- The brackets of the open constructs, the innermost first. -/
def openBrackets (opened : OpenForms) : List Bracket :=
  opened.filterMap bracket?

/-- The tokens that the reader has taken leave the same brackets open when they are judged. -/
theorem judgeTokens_accounts {taken : List Token} {opened : OpenForms}
    (accounts : Accounts taken opened) (rest : List Token) :
    judgeTokens [] (taken ++ rest) = judgeTokens (openBrackets opened) rest := by
  induction accounts generalizing rest with
  | nothing => rfl
  | @sequence around inside opener bracket items outer _ opens content ih =>
      rw [List.append_assoc, ih, List.cons_append, judgeTokens_opening opens,
        judgeTokens_derives content]
      rfl
  | @marked around mark marker outer _ marks ih =>
      rw [List.append_assoc, ih, List.singleton_append, judgeTokens, marks]
      rfl

/-- The errors that are left when all brackets and strings are closed: keys and values that make no
hash, and a mark with nothing to apply to. -/
inductive BalancedFault (tokens : List Token) : ParseError → Prop where
  | hash (span : Span) (fault : HashFault) : BalancedFault tokens (.invalidHash span fault)
  | markAtEnd {before : List Token} {mark : Token} {marker : Marker}
      (split : tokens = before ++ [mark]) (marks : mark.kind = .mark marker) :
      BalancedFault tokens (.unexpectedEnd (.operand marker))
  | markBeforeCloser {before after : List Token} {mark closer : Token} {marker : Marker}
      {bracket : Bracket} (split : tokens = before ++ mark :: closer :: after)
      (marks : mark.kind = .mark marker) (closes : closer.kind = .closing bracket) :
      BalancedFault tokens (.unexpectedToken closer .expression)

theorem BalancedFault.append {tokens : List Token} {e : ParseError}
    (fault : BalancedFault tokens e) (front : List Token) : BalancedFault (front ++ tokens) e := by
  cases fault with
  | hash span fault => exact .hash span fault
  | markAtEnd split marks =>
      subst split
      exact .markAtEnd (List.append_assoc _ _ _).symm marks
  | markBeforeCloser split marks closes =>
      subst split
      exact .markBeforeCloser (List.append_assoc _ _ _).symm marks closes

theorem balancedFault_unfinished {tokens : List Token} {construct : OpenForm} {outer : OpenForms}
    (accounts : Accounts tokens (construct :: outer)) (valid : judgeTokens [] tokens = .valid) :
    BalancedFault tokens (.unexpectedEnd construct.awaited) := by
  have judged := judgeTokens_accounts accounts []
  rw [List.append_nil, valid] at judged
  cases accounts with
  | sequence => cases judged
  | marked _ marks => exact .markAtEnd rfl marks

theorem balancedFault_blamed {taken rest : List Token} {opened : OpenForms} {token : Token}
    {e : ParseError} (accounts : Accounts taken opened) (blamed : Blamed taken opened token e)
    (valid : judgeTokens [] (taken ++ token :: rest) = .valid) :
    BalancedFault (taken ++ token :: rest) e := by
  rw [judgeTokens_accounts accounts] at valid
  cases blamed with
  | hash => exact .hash _ _
  | string kind unclosed =>
      rw [judgeTokens, kind] at valid
      simp [unclosed] at valid
  | closer closes mismatched =>
      rw [judgeTokens_closing closes] at valid
      cases accounts with
      | nothing => cases valid
      | @sequence around inside opener bracket items outer _ _ _ =>
          have judged := (if_neg mismatched).symm.trans valid
          cases judged
      | @marked around mark marker outer _ marks =>
          rw [List.append_assoc, List.singleton_append]
          exact .markBeforeCloser rfl marks closes

theorem balancedFault_readForms {rounds : Nat} {tokens : List Token} {values : List Value}
    {e : ParseError} (valid : judgeTokens [] tokens = .valid)
    (failed : readForms rounds tokens = (values, some e)) : BalancedFault tokens e := by
  induction rounds generalizing tokens values with
  | zero => cases failed
  | succ rounds ih =>
      by_cases empty : tokens = []
      · subst empty
        cases failed
      rw [readForms] at failed
      rcases read : readOne tokens with ⟨cause | (_ | form), rest⟩
      · rw [read] at failed
        cases failed
        rcases readOne_cases empty with
          ⟨construct, outer, accounts, ended⟩ |
          ⟨front, token, after, opened, outcome, rfl, accounts, settles, ended⟩
        · cases read.symm.trans ended
          exact balancedFault_unfinished accounts valid
        · cases read.symm.trans (ended after)
          exact balancedFault_blamed accounts (settles.blamed accounts) valid
      · rw [read] at failed
        cases failed
      · obtain ⟨front, rfl, derived⟩ := readOne_iff_derives.mp read
        rw [read] at failed
        obtain ⟨-, later⟩ := Prod.mk.inj failed
        rw [judgeTokens_derives derived] at valid
        exact (ih valid (Prod.ext rfl later)).append front

/-! ## Entries -/

theorem judge_eq_judgeTokens {source : String} (comparable : Comparable source.toList) :
    judge source.toList = judgeTokens [] (tokenize source) := by
  rw [tokenize_eq]
  exact judgedAlike comparable [] 0

/-- What reads to its end is judged to be whole. What is judged to be whole has all brackets and
strings closed, and reading it does not fail for one of them. -/
theorem judge_reader {source : String} (comments : CommentsEndLines .code source.toList) :
    (∀ values, readAll source = .ok values → judge source.toList = .valid) ∧
      (StringsKeepLines .code source.toList →
        (judge source.toList = .valid ↔ Nested (kinds (tokenize source)) ∧
          ∀ kind ∈ kinds (tokenize source), Accepted kind) ∧
        (judge source.toList = .valid → ∀ e, readAll source = .error e →
          BalancedFault (tokenize source) e)) := by
  constructor
  · intro values read
    have derived := readAll_iff_derives.mp read
    rw [judge_eq_judgeTokens ⟨comments, .inr derived.accepted⟩]
    exact judgeTokens_eq_valid_iff.mpr ⟨Derives.nested derived, derived.accepted⟩
  · intro strings
    rw [judge_eq_judgeTokens ⟨comments, .inl strings⟩]
    refine ⟨judgeTokens_eq_valid_iff, fun valid e failed => ?_⟩
    rw [readAll, Script.ofText] at failed
    rcases read : readForms (tokenize source).length (tokenize source) with ⟨values, _ | cause⟩
    · simp [read] at failed
    · simp only [read, Except.error.injEq] at failed
      subst failed
      exact balancedFault_readForms valid read

/-- The comment ends with its line, a quote in the string is escaped, and a mark is left over. -/
theorem judge_reader_marked :
    CommentsEndLines .code "(f ; )\r\n \"\\\"(\" ')".toList ∧
      StringsKeepLines .code "(f ; )\r\n \"\\\"(\" ')".toList ∧
      judge "(f ; )\r\n \"\\\"(\" ')".toList = .valid ∧
      BalancedFault (tokenize "(f ; )\r\n \"\\\"(\" ')")
        (.unexpectedToken ⟨.closing .round, ⟨16, 17⟩⟩ .expression) := by
  have comments : CommentsEndLines .code "(f ; )\r\n \"\\\"(\" ')".toList := by decide
  have strings : StringsKeepLines .code "(f ; )\r\n \"\\\"(\" ')".toList := by decide
  have faults := ((judge_reader comments).2 strings).2
  exact ⟨comments, strings, rfl, faults rfl _ rfl⟩

/-- Characters and tokens differ on where a comment with a carriage return ends, and on whether a
backslash and a line feed belong to a string. -/
theorem judge_ne_reader :
    readAll "(;\r)" = .ok [.list []] ∧ judge "(;\r)".toList = .incomplete ∧
      judge ";\r(".toList = .valid ∧ readAll ";\r(" = .error (.unexpectedEnd (.closer .round)) ∧
      judge "\"a\\\nb\"".toList = .valid ∧
      readAll "\"a\\\nb\"" = .error (.unterminatedString ⟨0, 2⟩) :=
  ⟨rfl, rfl, rfl, rfl, rfl, rfl⟩

end Lisp.Repl
