import Lisp.Proofs.Repl.Balance

/-! What a verdict means in terms of tokens. In texts with ordinary lines an entry is invalid from
the first closing bracket on that matches no opening one, and incomplete when a bracket or a string
is left open. -/

set_option autoImplicit false

namespace Lisp.Repl

/-! ## Ordinary lines -/

/-- Carriage returns stand only at the ends of lines, and backslashes do not stand there. -/
structure OrdinaryLines (text : List Char) : Prop where
  returns : ∀ before after, text = before ++ '\r' :: after → after.head? = some '\n'
  backslashes : ∀ before after, text = before ++ '\\' :: after → after.head? ≠ some '\n'

theorem OrdinaryLines.rest {front rest : List Char} (ordinary : OrdinaryLines (front ++ rest)) :
    OrdinaryLines rest := by
  constructor
  · rintro before after rfl
    exact ordinary.returns (front ++ before) after (List.append_assoc _ _ _).symm
  · rintro before after rfl
    exact ordinary.backslashes (front ++ before) after (List.append_assoc _ _ _).symm

theorem ordinaryLines_cons {c : Char} {rest : List Char} :
    OrdinaryLines (c :: rest) ↔
      ((c = '\r' → rest.head? = some '\n') ∧ (c = '\\' → rest.head? ≠ some '\n')) ∧
        OrdinaryLines rest := by
  constructor
  · intro ordinary
    refine ⟨⟨?_, ?_⟩, @OrdinaryLines.rest [c] rest ordinary⟩
    · rintro rfl
      exact ordinary.returns [] rest rfl
    · rintro rfl
      exact ordinary.backslashes [] rest rfl
  · rintro ⟨⟨returns, backslashes⟩, others⟩
    constructor <;> rintro (_ | ⟨first, before⟩) after shape
    · obtain ⟨rfl, rfl⟩ := List.cons.inj shape
      exact returns rfl
    · exact others.returns before after (List.cons.inj shape).2
    · obtain ⟨rfl, rfl⟩ := List.cons.inj shape
      exact backslashes rfl
    · exact others.backslashes before after (List.cons.inj shape).2

theorem ordinaryLines_nil : OrdinaryLines [] := by
  constructor <;> rintro (_ | ⟨first, before⟩) after shape <;> cases shape

instance decidableOrdinaryLines : (text : List Char) → Decidable (OrdinaryLines text)
  | [] => .isTrue ordinaryLines_nil
  | _ :: rest =>
    have := decidableOrdinaryLines rest
    decidable_of_iff' _ ordinaryLines_cons

theorem Region.next_eq_escaped {region : Region} {c : Char}
    (escapes : region.next c = .string true) : c = '\\' := by
  by_contra noBackslash
  cases region with
  | code | comment =>
      rw [Region.next] at escapes
      split_ifs at escapes <;> cases escapes
  | string escaped =>
      rw [Region.next, afterStringChar, if_neg noBackslash] at escapes
      split_ifs at escapes <;> cases escapes

theorem regionAfter_eq_escaped {text : List Char}
    (escapes : regionAfter .code text = .string true) : ∃ front, text = front ++ ['\\'] := by
  rcases List.eq_nil_or_concat text with rfl | ⟨front, c, rfl⟩
  · cases escapes
  · rw [List.concat_eq_append, regionAfter_append] at escapes
    obtain rfl := Region.next_eq_escaped escapes
    exact ⟨front, List.concat_eq_append⟩

theorem OrdinaryLines.comparable {text : List Char} (ordinary : OrdinaryLines text) :
    Comparable text := by
  refine ⟨fun before after shape _ => .inr (ordinary.returns before after shape), .inl ?_⟩
  rintro before after rfl escapes
  obtain ⟨front, rfl⟩ := regionAfter_eq_escaped escapes
  exact ordinary.backslashes front ('\n' :: after) (List.append_assoc _ _ _) rfl

/-- Behind a string that is not closed stand no brackets. -/
def StringsLast (ks : List TokenKind) : Prop :=
  ks.Pairwise fun kind later => Accepted kind ∨ isBracket later = false

/-- A string that is not closed leaves at most a backslash for the tokens after it. -/
theorem OrdinaryLines.stringsLast {text : List Char} (ordinary : OrdinaryLines text) :
    StringsLast (lexemes text) := by
  induction text using text_induction with
  | nil => exact .nil
  | separator c rest separates ih =>
      rw [lexemes_separator separates]
      exact ih (@OrdinaryLines.rest [c] rest ordinary)
  | lastComment text inside =>
      rw [← kinds_tokensAt 0, tokensAt_lastComment 0 inside]
      exact .nil
  | comment text stop rest inside ends ih =>
      rw [lexemes_comment inside ends]
      refine ih (@OrdinaryLines.rest (';' :: (text ++ [stop])) rest ?_)
      simpa using ordinary
  | token c rest notSeparator notComment ih =>
      have scanned := scanned_scanToken notSeparator notComment rest
      rw [← scanToken_append c rest] at ordinary ⊢
      rw [lexemes_scanned scanned, StringsLast, List.pairwise_cons]
      refine ⟨fun later present => ?_, ih ordinary.rest⟩
      generalize (scanToken c rest).1 = kind, (scanToken c rest).2 = rest at *
      cases scanned with
      | opening | closing | mark | atom => exact .inl trivial
      | string inside => exact .inl (accepted_string inside)
      | openString inside ends =>
          -- Only before the end of a line would there be a rest with brackets of its own.
          rcases splitString_stops ends with rfl | rfl | ⟨more, rfl⟩
          · cases present
          · obtain rfl := List.mem_singleton.mp present
            exact .inr rfl
          · exact absurd rfl (ordinary.rest.backslashes [] ('\n' :: more) rfl)

/-! ## Matching brackets -/

/-- The brackets that are open after a token, the innermost first, unless the token is a closing
bracket that does not match the innermost open one. -/
def matchBracket (opened : List Bracket) : TokenKind → Option (List Bracket)
  | .opening bracket => some (bracket :: opened)
  | .closing bracket =>
    match opened with
    | [] => none
    | top :: outer => if top = bracket then some outer else none
  | .mark _ | .string _ | .atom _ => some opened

/-- The brackets that are open after all the tokens, if every closing bracket matches. -/
def openAfter (opened : List Bracket) (ks : List TokenKind) : Option (List Bracket) :=
  ks.foldlM matchBracket opened

theorem openAfter_cons (opened : List Bracket) (kind : TokenKind) (ks : List TokenKind) :
    openAfter opened (kind :: ks) =
      (matchBracket opened kind).bind fun inner => openAfter inner ks :=
  List.foldlM_cons

/-- The token is the first closing bracket that does not match the innermost open one. -/
structure FirstUnmatched (opened : List Bracket) (tokens : List Token) (bracket : Bracket)
    (token : Token) : Prop where
  closes : token.kind = .closing bracket
  split : ∃ before after inner, tokens = before ++ token :: after ∧
    openAfter opened (kinds before) = some inner ∧ inner.head? ≠ some bracket

theorem matchBracket_eq_none {opened : List Bracket} {kind : TokenKind}
    (fails : matchBracket opened kind = none) :
    ∃ bracket, kind = .closing bracket ∧ opened.head? ≠ some bracket := by
  cases kind with
  | opening | mark | string | atom => cases fails
  | closing bracket =>
      refine ⟨bracket, rfl, ?_⟩
      cases opened with
      | nil => exact nofun
      | cons top outer =>
          rintro ⟨rfl⟩
          rw [matchBracket, if_pos rfl] at fails
          cases fails

/-- Either all closing brackets match or there is a first one that does not. -/
theorem exists_firstUnmatched {opened : List Bracket} {tokens : List Token}
    (fails : openAfter opened (kinds tokens) = none) :
    ∃ bracket token, FirstUnmatched opened tokens bracket token := by
  induction tokens generalizing opened with
  | nil => cases fails
  | cons token rest ih =>
      rw [kinds, List.map_cons, openAfter_cons, ← kinds] at fails
      cases first : matchBracket opened token.kind with
      | none =>
          obtain ⟨bracket, closes, unmatched⟩ := matchBracket_eq_none first
          exact ⟨bracket, token, closes, [], rest, opened, rfl, rfl, unmatched⟩
      | some inner =>
          rw [first] at fails
          obtain ⟨bracket, blamed, closes, before, after, last, rfl, matched, unmatched⟩ := ih fails
          refine ⟨bracket, blamed, closes, token :: before, after, last, rfl, ?_, unmatched⟩
          rw [kinds, List.map_cons, openAfter_cons, first]
          exact matched

/-! ## Verdicts on tokens -/

theorem judgeTokens_matched {token : Token} {opened inner : List Bracket}
    (accepted : Accepted token.kind) (matched : matchBracket opened token.kind = some inner)
    (rest : List Token) : judgeTokens opened (token :: rest) = judgeTokens inner rest := by
  cases kind : token.kind with
  | opening bracket =>
      rw [kind] at matched
      cases matched
      exact judgeTokens_opening kind opened rest
  | closing bracket =>
      rw [kind] at matched
      rw [judgeTokens_closing kind]
      cases opened with
      | nil => cases matched
      | cons top outer =>
          rw [matchBracket] at matched
          split_ifs at matched with same
          cases matched
          exact if_pos same
  | mark | string | atom =>
      have noBracket : isBracket token.kind = false := by rw [kind]; rfl
      rw [kind] at matched
      cases matched
      exact judgeTokens_other noBracket accepted opened rest

theorem judgeTokens_openAfter {front : List Token} {opened inner : List Bracket}
    (accepted : ∀ kind ∈ kinds front, Accepted kind)
    (matched : openAfter opened (kinds front) = some inner) (rest : List Token) :
    judgeTokens opened (front ++ rest) = judgeTokens inner rest := by
  induction front generalizing opened with
  | nil =>
      cases matched
      rfl
  | cons token front ih =>
      obtain ⟨first, others⟩ := List.forall_mem_cons.mp accepted
      obtain ⟨next, step, onward⟩ := Option.bind_eq_some_iff.mp matched
      rw [List.cons_append, judgeTokens_matched first step, ih others onward]

/-- The first closing bracket that does not match is rejected, when only closed strings stand before
it. -/
theorem FirstUnmatched.judgeTokens_eq {opened : List Bracket} {tokens : List Token}
    {bracket : Bracket} {token : Token} (blamed : FirstUnmatched opened tokens bracket token)
    (strings : StringsLast (kinds tokens)) :
    judgeTokens opened tokens = .invalid bracket.closer token.span.start := by
  obtain ⟨closes, before, after, inner, rfl, matched, unmatched⟩ := blamed
  have accepted : ∀ kind ∈ kinds before, Accepted kind := by
    intro kind present
    rw [StringsLast, kinds, List.map_append, List.map_cons, ← kinds, List.pairwise_append] at strings
    have shown := strings.2.2 kind present token.kind List.mem_cons_self
    rw [closes] at shown
    rcases shown with closed | noBracket
    · exact closed
    · cases noBracket
  rw [judgeTokens_openAfter accepted matched, judgeTokens_closing closes]
  cases inner with
  | nil => rfl
  | cons top outer => exact if_neg fun same => unmatched (congrArg some same)

/-- When all closing brackets match, the verdict says whether something is left open. -/
theorem judgeTokens_of_openAfter {opened inner : List Bracket} {tokens : List Token}
    (matched : openAfter opened (kinds tokens) = some inner) :
    judgeTokens opened tokens =
      if inner = [] ∧ ∀ kind ∈ kinds tokens, Accepted kind then .valid else .incomplete := by
  induction tokens generalizing opened with
  | nil =>
      cases matched
      cases inner <;> rfl
  | cons token rest ih =>
      obtain ⟨next, step, onward⟩ := Option.bind_eq_some_iff.mp matched
      by_cases first : Accepted token.kind
      · rw [judgeTokens_matched first step, ih onward]
        refine if_congr (and_congr_right fun _ => ?_) rfl rfl
        rw [kinds, kinds, List.map_cons, List.forall_mem_cons, and_iff_right first]
      · have unclosed : ¬ (inner = [] ∧ ∀ kind ∈ kinds (token :: rest), Accepted kind) :=
          fun whole => first (whole.2 token.kind List.mem_cons_self)
        rw [if_neg unclosed]
        cases kind : token.kind with
        | opening | closing | mark | atom =>
            rw [kind] at first
            exact absurd trivial first
        | string text =>
            rw [kind] at first
            rw [judgeTokens, kind]
            exact if_neg first

section

variable {tokens : List Token} (strings : StringsLast (kinds tokens))
include strings

theorem judgeTokens_cases :
    (∃ bracket token, FirstUnmatched [] tokens bracket token ∧
      judgeTokens [] tokens = .invalid bracket.closer token.span.start) ∨
    ∃ opened, openAfter [] (kinds tokens) = some opened ∧
      judgeTokens [] tokens =
        if opened = [] ∧ ∀ kind ∈ kinds tokens, Accepted kind then .valid else .incomplete := by
  cases matched : openAfter [] (kinds tokens) with
  | none =>
      obtain ⟨bracket, token, blamed⟩ := exists_firstUnmatched matched
      exact .inl ⟨bracket, token, blamed, blamed.judgeTokens_eq strings⟩
  | some opened => exact .inr ⟨opened, rfl, judgeTokens_of_openAfter matched⟩

theorem judgeTokens_eq_invalid_iff {closer : Char} {position : Nat} :
    judgeTokens [] tokens = .invalid closer position ↔
      ∃ bracket token, FirstUnmatched [] tokens bracket token ∧
        closer = bracket.closer ∧ position = token.span.start := by
  constructor
  · intro invalid
    rcases judgeTokens_cases strings with ⟨bracket, token, blamed, judged⟩ | ⟨opened, -, judged⟩
    · cases invalid.symm.trans judged
      exact ⟨bracket, token, blamed, rfl, rfl⟩
    · rw [judged] at invalid
      split_ifs at invalid
  · rintro ⟨bracket, token, blamed, rfl, rfl⟩
    exact blamed.judgeTokens_eq strings

theorem judgeTokens_eq_incomplete_iff :
    judgeTokens [] tokens = .incomplete ↔
      ∃ opened, openAfter [] (kinds tokens) = some opened ∧
        (opened ≠ [] ∨ ∃ kind ∈ kinds tokens, ¬ Accepted kind) := by
  constructor
  · intro incomplete
    rcases judgeTokens_cases strings with ⟨bracket, token, -, judged⟩ | ⟨opened, matched, judged⟩
    · cases incomplete.symm.trans judged
    · rw [judged] at incomplete
      split_ifs at incomplete with whole
      refine ⟨opened, matched, (not_and_or.mp whole).imp_right fun unclosed => ?_⟩
      simpa using unclosed
  · rintro ⟨opened, matched, left⟩
    rw [judgeTokens_of_openAfter matched, if_neg]
    rintro ⟨rfl, accepted⟩
    obtain nothing | ⟨kind, present, rejected⟩ := left
    · exact nothing rfl
    · exact rejected (accepted kind present)

theorem judgeTokens_eq_valid_iff_openAfter :
    judgeTokens [] tokens = .valid ↔
      openAfter [] (kinds tokens) = some [] ∧ ∀ kind ∈ kinds tokens, Accepted kind := by
  constructor
  · intro valid
    rcases judgeTokens_cases strings with ⟨bracket, token, -, judged⟩ | ⟨opened, matched, judged⟩
    · cases valid.symm.trans judged
    · rw [judged] at valid
      split_ifs at valid with whole
      obtain ⟨rfl, accepted⟩ := whole
      exact ⟨matched, accepted⟩
  · rintro ⟨matched, accepted⟩
    rw [judgeTokens_of_openAfter matched, if_pos ⟨rfl, accepted⟩]

end

/-- On ordinary lines an entry is invalid exactly when a closing bracket among its tokens does not
match, and the objection names the first of them and the byte where it starts. Of the other entries
those are incomplete in which a bracket stays open or a string is not closed. -/
theorem judge_ordinaryLines {source : String} (ordinary : OrdinaryLines source.toList) :
    (∀ closer position, judge source.toList = .invalid closer position ↔
      ∃ bracket token, FirstUnmatched [] (tokenize source) bracket token ∧
        closer = bracket.closer ∧ position = token.span.start) ∧
      (∀ bracket token, FirstUnmatched [] (tokenize source) bracket token →
        unmatchedMessage bracket.closer token.span.start =
          "  - Unmatched '" ++ token.kind.text ++ "' at position " ++ toString token.span.start) ∧
      (judge source.toList = .incomplete ↔
        ∃ opened, openAfter [] (kinds (tokenize source)) = some opened ∧
          (opened ≠ [] ∨ ∃ kind ∈ kinds (tokenize source), ¬ Accepted kind)) ∧
      (judge source.toList = .valid ↔
        openAfter [] (kinds (tokenize source)) = some [] ∧
          ∀ kind ∈ kinds (tokenize source), Accepted kind) := by
  have strings : StringsLast (kinds (tokenize source)) := ordinary.stringsLast
  rw [judge_eq_judgeTokens ordinary.comparable]
  refine ⟨fun closer position => judgeTokens_eq_invalid_iff strings, ?_,
    judgeTokens_eq_incomplete_iff strings, judgeTokens_eq_valid_iff_openAfter strings⟩
  intro bracket token blamed
  rw [unmatchedMessage, blamed.closes]
  rfl

/-- The comment ends with a carriage return, the string holds a quote and a bracket, and bytes are
counted. A string may end with a backslash that is a token of its own. -/
theorem judge_ordinaryLines_mixed :
    OrdinaryLines "é ; )\r\n \"\\\")\" [)".toList ∧
      (∃ bracket token, FirstUnmatched [] (tokenize "é ; )\r\n \"\\\")\" [)") bracket token ∧
        ')' = bracket.closer ∧ 16 = token.span.start) ∧
      OrdinaryLines "[] \"(\\".toList ∧ judge "[] \"(\\".toList = .incomplete := by
  have crossing : OrdinaryLines "é ; )\r\n \"\\\")\" [)".toList := by decide
  have unclosed : OrdinaryLines "[] \"(\\".toList := by decide
  obtain ⟨invalid, -, -, -⟩ := judge_ordinaryLines crossing
  obtain ⟨-, -, incomplete, -⟩ := judge_ordinaryLines unclosed
  exact ⟨crossing, (invalid ')' 16).mp rfl, unclosed,
    incomplete.mpr ⟨[], rfl, .inr ⟨.string "\"(", by decide, by decide⟩⟩⟩

end Lisp.Repl
