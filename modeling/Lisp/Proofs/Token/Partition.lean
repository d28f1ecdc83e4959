import Lisp.Proofs.Token.Division

/-! A text is partitioned into its tokens and the gaps around them. Each token is the longest text
that a lexical rule allows at its place, and some rule applies everywhere. -/

set_option autoImplicit false

namespace Lisp

/-! ## Rules -/

/-- The tokens that the rules allow. A string may lack its closing quote. -/
inductive Lexeme : TokenKind → Prop where
  | opening (bracket : Bracket) : Lexeme (.opening bracket)
  | closing (bracket : Bracket) : Lexeme (.closing bracket)
  | mark (marker : Marker) : Lexeme (.mark marker)
  | openString {body : List Char} (inside : StringBody body) :
      Lexeme (.string (.ofList ('"' :: body)))
  | string {body : List Char} (inside : StringBody body) :
      Lexeme (.string (.ofList ('"' :: (body ++ ['"']))))
  | atom {c : Char} {rest : List Char} (starts : startsAtom c = true)
      (continues : ∀ other ∈ rest, continuesAtom other = true) :
      Lexeme (.atom (.ofList (c :: rest)))

/-- The texts that the rules pass over. -/
inductive Skipped : List Char → Prop where
  | separators {text : List Char} (nonempty : text ≠ [])
      (separate : ∀ c ∈ text, isSeparator c = true) : Skipped text
  | comment {text : List Char} (inside : ∀ c ∈ text, endsComment c = false) : Skipped (';' :: text)

def Recognised (text : List Char) : Prop :=
  (∃ front, Skipped front ∧ front <+: text) ∨ ∃ kind, Lexeme kind ∧ kind.text.toList <+: text

theorem Scanned.lexeme {kind : TokenKind} {rest : List Char} (scanned : Scanned kind rest) :
    Lexeme kind := by
  cases scanned with
  | opening bracket => exact .opening bracket
  | closing bracket => exact .closing bracket
  | mark marker _ => exact .mark marker
  | openString inside _ => exact .openString inside
  | string inside => exact .string inside
  | atom starts continues _ => exact .atom starts continues

theorem recognised_of_ne_nil {text : List Char} (unfinished : text ≠ []) : Recognised text := by
  obtain ⟨c, rest, rfl⟩ := List.exists_cons_of_ne_nil unfinished
  by_cases separates : isSeparator c = true
  · have single : Skipped [c] := .separators (List.cons_ne_nil c []) (by simpa using separates)
    exact .inl ⟨[c], single, rest, rfl⟩
  · by_cases comments : c = ';'
    · subst comments
      exact .inl ⟨[';'], .comment nofun, rest, rfl⟩
    · have scanned := scanned_scanToken (Bool.eq_false_iff.mpr separates) comments rest
      exact .inr ⟨_, scanned.lexeme, _, scanToken_append c rest⟩

/-! ## Longest matches -/

theorem StringBody.prefix_splitString {body text : List Char} (inside : StringBody body)
    (ahead : body <+: text) : body <+: (splitString text).1 := by
  obtain ⟨rest, rfl⟩ := ahead
  rw [inside.splitString_append]
  exact List.prefix_append _ _

theorem StringBody.closed_prefix_splitString {body text : List Char} (inside : StringBody body)
    (ahead : body ++ ['"'] <+: text) : body ++ ['"'] <+: (splitString text).1 := by
  obtain ⟨rest, rfl⟩ := ahead
  have taken : splitString (body ++ ['"'] ++ rest) = (body ++ ['"'], rest) := by
    rw [List.append_assoc, List.singleton_append, inside.splitString_closed]
  exact ⟨[], by rw [taken, List.append_nil]⟩

theorem prefix_takeWhile {cs text : List Char} (continues : ∀ c ∈ cs, continuesAtom c = true)
    (ahead : cs <+: text) : cs <+: text.takeWhile continuesAtom := by
  obtain ⟨rest, rfl⟩ := ahead
  rw [List.takeWhile_append_of_pos continues]
  exact List.prefix_append _ _

theorem prefix_scanToken {c : Char} {rest : List Char} {other : TokenKind} (lexeme : Lexeme other)
    (ahead : other.text.toList <+: c :: rest) :
    other.text.toList <+: (scanToken c rest).1.text.toList := by
  -- A rule for single characters allows nothing longer than any token that starts with one.
  have single : ∀ x, [x] <+: c :: rest → [x] <+: (scanToken c rest).1.text.toList := by
    intro x ahead
    obtain ⟨more, text, -⟩ := scanToken_divides c rest
    rw [text]
    exact List.cons_prefix_cons.mpr ⟨(List.cons_prefix_cons.mp ahead).1, List.nil_prefix⟩
  cases lexeme with
  | opening bracket | closing bracket =>
      simp only [TokenKind.text, Char.toString_eq_singleton, String.toList_singleton] at ahead ⊢
      exact single _ ahead
  | mark marker =>
      rw [TokenKind.text, Marker.toList_text] at ahead ⊢
      cases marker with
      | quote | quasiquote | unquote => exact single _ ahead
      | splice =>
          obtain ⟨rfl, more, rfl⟩ := List.cons_prefix_cons.mp ahead
          have scans : scanToken '~' (['@'] ++ more) = (.mark .splice, more) := rfl
          exact ⟨[], by rw [scans, TokenKind.text, Marker.toList_text, List.append_nil]⟩
  | openString inside =>
      rw [TokenKind.text, String.toList_ofList] at ahead ⊢
      obtain ⟨rfl, inner⟩ := List.cons_prefix_cons.mp ahead
      rw [scanToken_string, TokenKind.text, String.toList_ofList]
      exact List.cons_prefix_cons.mpr ⟨rfl, inside.prefix_splitString inner⟩
  | string inside =>
      rw [TokenKind.text, String.toList_ofList] at ahead ⊢
      obtain ⟨rfl, inner⟩ := List.cons_prefix_cons.mp ahead
      rw [scanToken_string, TokenKind.text, String.toList_ofList]
      exact List.cons_prefix_cons.mpr ⟨rfl, inside.closed_prefix_splitString inner⟩
  | atom starts continues =>
      rw [TokenKind.text, String.toList_ofList] at ahead ⊢
      obtain ⟨rfl, inner⟩ := List.cons_prefix_cons.mp ahead
      rw [scanToken_atom starts, TokenKind.text, String.toList_ofList]
      exact List.cons_prefix_cons.mpr ⟨rfl, prefix_takeWhile continues inner⟩

theorem Scanned.longest {kind other : TokenKind} {rest : List Char} (scanned : Scanned kind rest)
    (lexeme : Lexeme other) (ahead : other.text.toList <+: kind.text.toList ++ rest) :
    other.text.toList <+: kind.text.toList := by
  obtain ⟨c, more, text, -, -, scans⟩ := scanned.scans
  rw [text, List.cons_append] at ahead
  have longest := prefix_scanToken lexeme ahead
  rwa [scans] at longest

/-! ## Places -/

/-- The text stands in the source at the bytes of the span. -/
def Occupies (source : List Char) (span : Span) (text : List Char) : Prop :=
  ∃ before after, source = before ++ (text ++ after) ∧ byteLength before = span.start ∧
    byteLength (before ++ text) = span.stop

/-- From byte `place` on, the source consists of the tokens, one after the other, and of
separators and comments around them. -/
inductive GapsFilled (source : List Char) : (place : Nat) → List Token → Prop where
  | last {place : Nat} {gap : List Char} (fills : LastFiller gap)
      (occupies : Occupies source ⟨place, byteLength source⟩ gap) : GapsFilled source place []
  | token {place : Nat} {gap : List Char} {token : Token} {tokens : List Token}
      (fills : Filler gap) (occupies : Occupies source ⟨place, token.span.start⟩ gap)
      (others : GapsFilled source token.span.stop tokens) :
      GapsFilled source place (token :: tokens)

structure Partitions (source : List Char) (tokens : List Token) : Prop where
  nonempty : ∀ token ∈ tokens, token.span.start < token.span.stop
  ordered : tokens.Pairwise fun first second => first.span.stop ≤ second.span.start
  placed : ∀ token ∈ tokens, Occupies source token.span token.kind.text.toList
  filled : GapsFilled source 0 tokens
  matched : ∀ token ∈ tokens, Lexeme token.kind
  longest : ∀ token ∈ tokens, ∀ (other : TokenKind) (span : Span), Lexeme other →
    span.start = token.span.start → Occupies source span other.text.toList →
      span.stop ≤ token.span.stop
  recognised : ∀ before after, source = before ++ after → after ≠ [] → Recognised after

/-! ## Partitions -/

theorem occupies_middle (before text after : List Char) :
    Occupies (before ++ (text ++ after)) ⟨byteLength before, byteLength before + byteLength text⟩
      text :=
  ⟨before, after, rfl, rfl, byteLength_append before text⟩

theorem Divided.ordered {offset : Nat} {cs : List Char} {tokens : List Token}
    (divided : Divided offset cs tokens) :
    tokens.Pairwise fun first second => first.span.stop ≤ second.span.start := by
  induction divided with
  | last trailing => exact .nil
  | token fills scanned others ih =>
      refine .cons ?_ ih
      intro later present
      obtain ⟨front, back, -, place, -⟩ := others.scanned_of_mem present
      rw [place]
      exact Nat.le_add_right _ _

theorem Divided.filled {offset : Nat} {before cs : List Char} {tokens : List Token}
    (divided : Divided offset cs tokens) (place : byteLength before = offset) :
    GapsFilled (before ++ cs) offset tokens := by
  induction divided generalizing before with
  | @last offset last trailing =>
      subst place
      have occupies := occupies_middle before last []
      rw [← byteLength_append, List.append_nil] at occupies
      exact .last trailing occupies
  | @token offset filler rest kind tokens fills scanned others ih =>
      subst place
      have filled := @ih (before ++ (filler ++ kind.text.toList)) (by
        rw [byteLength_append, byteLength_append, byteLength_toList, Nat.add_assoc])
      rw [List.append_assoc, List.append_assoc] at filled
      exact .token fills (occupies_middle before filler _) filled

/-- The tokens of a text partition it. -/
theorem tokenize_partitions (source : String) : Partitions source.toList (tokenize source) := by
  have divided := divided_tokensAt 0 source.toList
  rw [← tokenize_eq] at divided
  have stands : ∀ token ∈ tokenize source, ∃ front back,
      source.toList = front ++ (token.kind.text.toList ++ back) ∧
        token.span = ⟨byteLength front, byteLength front + byteLength token.kind.text.toList⟩ ∧
        Scanned token.kind back := by
    intro token present
    obtain ⟨front, back, shape, place, scanned⟩ := divided.scanned_of_mem present
    refine ⟨front, back, shape, ?_, scanned⟩
    rw [place, byteLength_toList]
    simp only [TokenKind.placedAt, Nat.zero_add]
  constructor
  case nonempty =>
    intro token present
    obtain ⟨front, back, -, place, scanned⟩ := stands token present
    obtain ⟨c, more, text, -⟩ := scanned.scans
    have positive := byteLength_pos (List.cons_ne_nil c more)
    rw [place, text]
    exact Nat.lt_add_of_pos_right positive
  case ordered => exact divided.ordered
  case placed =>
    intro token present
    obtain ⟨front, back, shape, place, -⟩ := stands token present
    rw [shape, place]
    exact occupies_middle front _ back
  case filled =>
    have filled := divided.filled (byteLength.eq_1)
    rwa [List.nil_append] at filled
  case matched =>
    intro token present
    obtain ⟨front, back, -, -, scanned⟩ := stands token present
    exact scanned.lexeme
  case longest =>
    intro token present other span lexeme sameStart occupies
    obtain ⟨front, back, shape, place, scanned⟩ := stands token present
    obtain ⟨before, after, shape', start, stop⟩ := occupies
    rw [place] at sameStart
    obtain ⟨rfl, same⟩ := append_inj_of_byteLength (shape'.symm.trans shape) (start.trans sameStart)
    obtain ⟨more, longer⟩ := scanned.longest lexeme ⟨after, same⟩
    rw [← stop, place, ← longer, byteLength_append, byteLength_append, ← Nat.add_assoc]
    exact Nat.le_add_right _ _
  case recognised =>
    intro before after _ unfinished
    exact recognised_of_ne_nil unfinished

/-- A string stops before a backslash at the end of its line, which is then an atom. -/
example : tokenize "~@\"a\\\n~ @" =
    [⟨.mark .splice, ⟨0, 2⟩⟩, ⟨.string "\"a", ⟨2, 4⟩⟩, ⟨.atom "\\", ⟨4, 5⟩⟩,
      ⟨.mark .unquote, ⟨6, 7⟩⟩, ⟨.atom "@", ⟨8, 9⟩⟩] := rfl

end Lisp
