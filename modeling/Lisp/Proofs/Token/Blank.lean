import Lisp.Proofs.Token.Lexemes
import Lisp.Text.Blank

/-! White space at the ends of a text. Some of it separates tokens, the rest belongs to atoms, and all
of it belongs to a string that has not been closed. It leaves the text its tokens just when no token
reaches into it. -/

set_option autoImplicit false

namespace Lisp

/-! ## White space between tokens and in them -/

theorem ne_of_isBlank {c other : Char} (blank : Text.isBlank c = true)
    (visible : Text.isBlank other = false) : c ≠ other := by
  rintro rfl
  exact absurd blank (by simp [visible])

/-- White space that separates nothing starts an atom. -/
theorem startsAtom_of_isBlank {c : Char} (blank : Text.isBlank c = true)
    (notSeparator : isSeparator c = false) : startsAtom c = true := by
  have noOpener : Bracket.ofOpener? c = none := by
    refine Option.eq_none_iff_forall_ne_some.mpr fun bracket opens => ?_
    have same := Bracket.opener_of_ofOpener? opens
    exact ne_of_isBlank blank (by cases bracket <;> rfl) same.symm
  have noCloser : Bracket.ofCloser? c = none := by
    refine Option.eq_none_iff_forall_ne_some.mpr fun bracket closes => ?_
    have same := Bracket.closer_of_ofCloser? closes
    exact ne_of_isBlank blank (by cases bracket <;> rfl) same.symm
  have noComment : c ≠ ';' := ne_of_isBlank blank rfl
  have noQuote : c ≠ '\x27' := ne_of_isBlank blank rfl
  have noQuasi : c ≠ '\x60' := ne_of_isBlank blank rfl
  have noString : c ≠ '"' := ne_of_isBlank blank rfl
  have noUnquote : c ≠ '~' := ne_of_isBlank blank rfl
  simp [startsAtom, continuesAtom, notSeparator, noOpener, noCloser, noComment, noQuote, noQuasi,
    noString, noUnquote]

theorem stringBody_blank {cs : List Char} (blank : ∀ c ∈ cs, Text.isBlank c = true) :
    StringBody cs := by
  induction cs with
  | nil => exact .nil
  | cons c cs ih =>
      obtain ⟨first, others⟩ := List.forall_mem_cons.mp blank
      exact .plain (ne_of_isBlank first rfl) (ne_of_isBlank first rfl) (ih others)

/-! ## Characters of tokens -/

/-- The characters of a text that belong to its tokens. -/
def tokenChars (cs : List Char) : List Char :=
  (lexemes cs).flatMap fun kind => kind.text.toList

theorem tokenChars_nil : tokenChars [] = [] :=
  rfl

theorem tokenChars_filler {filler : List Char} (fills : Filler filler) (rest : List Char) :
    tokenChars (filler ++ rest) = tokenChars rest := by
  rw [tokenChars, lexemes_filler fills, tokenChars]

theorem tokenChars_lastFiller {last : List Char} (trailing : LastFiller last) :
    tokenChars last = [] := by
  rw [tokenChars, lexemes_lastFiller trailing, List.flatMap_nil]

theorem tokenChars_scanned {kind : TokenKind} {rest : List Char} (scanned : Scanned kind rest) :
    tokenChars (kind.text.toList ++ rest) = kind.text.toList ++ tokenChars rest := by
  rw [tokenChars, lexemes_scanned scanned, List.flatMap_cons, tokenChars]

/-- A token that starts with what may continue an atom consists of nothing else. -/
theorem Scanned.continues {kind : TokenKind} {c : Char} {more rest : List Char}
    (scanned : Scanned kind rest) (text : kind.text.toList = c :: more)
    (first : continuesAtom c = true) : ∀ other ∈ c :: more, continuesAtom other = true := by
  cases scanned with
  | opening bracket | closing bracket =>
      rw [TokenKind.text, Char.toString_eq_singleton, String.toList_singleton] at text
      obtain ⟨rfl, -⟩ := List.cons.inj text
      cases bracket <;> cases first
  | mark marker _ =>
      rw [TokenKind.text, Marker.toList_text] at text
      cases marker with
      | quote | quasiquote =>
          obtain ⟨rfl, -⟩ := List.cons.inj text
          cases first
      | unquote =>
          obtain ⟨rfl, rfl⟩ := List.cons.inj text
          exact List.all_eq_true.mp rfl
      | splice =>
          obtain ⟨rfl, rfl⟩ := List.cons.inj text
          exact List.all_eq_true.mp rfl
  | openString _ _ | string _ _ =>
      rw [TokenKind.text, String.toList_ofList] at text
      obtain ⟨rfl, -⟩ := List.cons.inj text
      cases first
  | atom _ continues _ =>
      rw [TokenKind.text, String.toList_ofList] at text
      obtain ⟨rfl, rfl⟩ := List.cons.inj text
      exact List.forall_mem_cons.mpr ⟨first, continues⟩

private theorem tokenChars_takeWhile_of_delimited {cs : List Char} (ends : Delimited cs) :
    tokenChars cs = cs.takeWhile continuesAtom ++ tokenChars (cs.dropWhile continuesAtom) := by
  rw [ends.takeWhile, ends.dropWhile, List.nil_append]

/-- Between strings and comments, what may continue an atom always belongs to a token, whether it goes
on with what stands before it or not. -/
theorem tokenChars_takeWhile (cs : List Char) :
    tokenChars cs = cs.takeWhile continuesAtom ++ tokenChars (cs.dropWhile continuesAtom) := by
  induction cs using text_induction with
  | nil => rfl
  | separator c rest separates =>
      exact tokenChars_takeWhile_of_delimited (delimited_separator separates rest)
  | lastComment text => exact tokenChars_takeWhile_of_delimited (delimited_cons rfl text)
  | comment text stop rest => exact tokenChars_takeWhile_of_delimited (delimited_cons rfl _)
  | token c rest notSeparator notComment ih =>
      by_cases continues : continuesAtom c = true
      · have scanned := scanned_scanToken notSeparator notComment rest
        obtain ⟨more, text, divided⟩ := scanToken_divides c rest
        have inside := scanned.continues text continues
        have whole := tokenChars_scanned scanned
        rw [text] at whole
        rw [← divided, ← List.cons_append, whole, List.takeWhile_append_of_pos inside,
          List.dropWhile_append_of_pos inside, List.append_assoc, ← ih]
      · have stops : continuesAtom c = false := Bool.eq_false_iff.mpr continues
        exact tokenChars_takeWhile_of_delimited (delimited_cons stops rest)

theorem tokenChars_append {front : List Char} (continues : ∀ c ∈ front, continuesAtom c = true)
    (cs : List Char) : tokenChars (front ++ cs) = front ++ tokenChars cs := by
  rw [tokenChars_takeWhile, List.takeWhile_append_of_pos continues,
    List.dropWhile_append_of_pos continues, List.append_assoc, ← tokenChars_takeWhile]

theorem tokenChars_continues {c : Char} (continues : continuesAtom c = true) (cs : List Char) :
    tokenChars (c :: cs) = c :: tokenChars cs :=
  tokenChars_append (List.forall_mem_singleton.mpr continues) cs

/-- The characters that separate nothing. -/
def visibles (cs : List Char) : List Char :=
  cs.filter (!isSeparator ·)

theorem visibles_separator {c : Char} (separates : isSeparator c = true) (cs : List Char) :
    visibles (c :: cs) = visibles cs :=
  List.filter_cons_of_neg (by simp [separates])

theorem visibles_visible {c : Char} (notSeparator : isSeparator c = false) (cs : List Char) :
    visibles (c :: cs) = c :: visibles cs :=
  List.filter_cons_of_pos (by simp [notSeparator])

/-- White space before a text does not touch the tokens of the text, or goes on into its first atom. -/
theorem tokenChars_blank {front : List Char} (blank : ∀ c ∈ front, Text.isBlank c = true)
    (cs : List Char) : tokenChars (front ++ cs) = visibles front ++ tokenChars cs := by
  induction front with
  | nil => rfl
  | cons c front ih =>
      obtain ⟨first, others⟩ := List.forall_mem_cons.mp blank
      cases separates : isSeparator c with
      | true =>
          have single : Filler [c] := .separator separates .nil
          have passed := tokenChars_filler single (front ++ cs)
          rw [List.singleton_append] at passed
          rw [List.cons_append, passed, ih others, visibles_separator separates]
      | false =>
          have starts := startsAtom_of_isBlank first separates
          have continues := continuesAtom_of_startsAtom starts
          rw [List.cons_append, tokenChars_continues continues, ih others,
            visibles_visible separates, List.cons_append]

theorem visibles_eq_nil {cs : List Char} :
    visibles cs = [] ↔ ∀ c ∈ cs, isSeparator c = true := by
  simp [visibles, List.filter_eq_nil_iff]

theorem filler_of_separators {cs : List Char} (separate : ∀ c ∈ cs, isSeparator c = true) :
    Filler cs := by
  induction cs with
  | nil => exact .nil
  | cons c cs ih =>
      obtain ⟨first, others⟩ := List.forall_mem_cons.mp separate
      exact .separator first (ih others)

/-! ## White space before a text -/

theorem bounds_of_mem {offset : Nat} {cs : List Char} {token : Token}
    (mem : token ∈ tokensAt offset cs) :
    offset ≤ token.span.start ∧ token.span.start < token.span.stop ∧
      token.span.stop ≤ offset + byteLength cs := by
  obtain ⟨front, back, rfl, place, scanned⟩ := (divided_tokensAt offset cs).scanned_of_mem mem
  obtain ⟨c, more, text, -⟩ := scanned.scans
  have positive := byteLength_pos (List.cons_ne_nil c more)
  rw [← text, byteLength_toList] at positive
  rw [place, TokenKind.placedAt, byteLength_append, byteLength_append, byteLength_toList]
  dsimp only
  omega

/-- In white space before a text that is more than separators a token starts. -/
theorem exists_start_lt {front : List Char} (blank : ∀ c ∈ front, Text.isBlank c = true)
    (some : visibles front ≠ []) (offset : Nat) (cs : List Char) :
    ∃ token ∈ tokensAt offset (front ++ cs), token.span.start < offset + byteLength front := by
  induction front generalizing offset with
  | nil => exact absurd rfl some
  | cons c front ih =>
      obtain ⟨first, others⟩ := List.forall_mem_cons.mp blank
      rw [List.cons_append]
      cases separates : isSeparator c with
      | true =>
          rw [visibles_separator separates] at some
          obtain ⟨token, mem, before⟩ := ih others some (offset + c.utf8Size)
          rw [tokensAt_separator _ separates]
          exact ⟨token, mem, by rwa [byteLength, ← Nat.add_assoc]⟩
      | false =>
          have noComment : c ≠ ';' := ne_of_isBlank first rfl
          rw [tokensAt_token _ separates noComment]
          exact ⟨_, List.mem_cons_self,
            Nat.lt_add_of_pos_right (byteLength_pos (List.cons_ne_nil c front))⟩

/-! ## White space after a text -/

/-- What `back` adds to the tokens of the text before it are the characters `extra`. If there are any,
a token reaches beyond the text. -/
structure Adds (cs back extra : List Char) : Prop where
  chars : tokenChars (cs ++ back) = tokenChars cs ++ extra
  same : extra = [] → ∀ offset, tokensAt offset (cs ++ back) = tokensAt offset cs
  reaches : extra ≠ [] → ∀ offset, ∃ token ∈ tokensAt offset (cs ++ back),
    offset + byteLength cs < token.span.stop

namespace Adds

variable {cs back extra : List Char}

theorem filler {filler : List Char} (fills : Filler filler) (adds : Adds cs back extra) :
    Adds (filler ++ cs) back extra where
  chars := by
    rw [List.append_assoc, tokenChars_filler fills, tokenChars_filler fills, adds.chars]
  same none offset := by
    rw [List.append_assoc, tokensAt_filler _ fills, tokensAt_filler _ fills, adds.same none]
  reaches some offset := by
    obtain ⟨token, mem, beyond⟩ := adds.reaches some (offset + byteLength filler)
    rw [List.append_assoc, tokensAt_filler _ fills, byteLength_append, ← Nat.add_assoc]
    exact ⟨token, mem, beyond⟩

theorem scanned {kind : TokenKind} (scanned : Scanned kind cs)
    (longer : Scanned kind (cs ++ back)) (adds : Adds cs back extra) :
    Adds (kind.text.toList ++ cs) back extra where
  chars := by
    rw [List.append_assoc, tokenChars_scanned longer, tokenChars_scanned scanned, adds.chars,
      List.append_assoc]
  same none offset := by
    rw [List.append_assoc, tokensAt_scanned _ longer, tokensAt_scanned _ scanned, adds.same none]
  reaches some offset := by
    obtain ⟨token, mem, beyond⟩ := adds.reaches some (offset + kind.text.utf8ByteSize)
    rw [List.append_assoc, tokensAt_scanned _ longer, byteLength_append, byteLength_toList,
      ← Nat.add_assoc]
    exact ⟨token, List.mem_cons_of_mem _ mem, beyond⟩

/-- More of the whole may count as the text if there are no tokens in it. -/
theorem of_longer {longer rest : List Char} (adds : Adds longer rest extra)
    (whole : cs ++ back = longer ++ rest)
    (tokens : ∀ offset, tokensAt offset longer = tokensAt offset cs)
    (further : byteLength cs ≤ byteLength longer) : Adds cs back extra where
  chars := by
    rw [whole, adds.chars, tokenChars, ← kinds_tokensAt 0, tokens, kinds_tokensAt, tokenChars]
  same none offset := by rw [whole, adds.same none, tokens]
  reaches some offset := by
    obtain ⟨token, mem, beyond⟩ := adds.reaches some offset
    rw [whole]
    exact ⟨token, mem, (Nat.add_le_add_left further offset).trans_lt beyond⟩

/-- The first token reaches beyond the text if its own text does. -/
theorem exists_reaches {kind : TokenKind} {rest : List Char} (scanned : Scanned kind rest)
    (whole : cs ++ back = kind.text.toList ++ rest)
    (further : byteLength cs < byteLength kind.text.toList) (offset : Nat) :
    ∃ token ∈ tokensAt offset (cs ++ back), offset + byteLength cs < token.span.stop := by
  rw [whole, tokensAt_scanned offset scanned]
  rw [byteLength_toList] at further
  exact ⟨_, List.mem_cons_self, Nat.add_lt_add_left further offset⟩

variable (blank : ∀ c ∈ back, Text.isBlank c = true)
include blank

theorem nil : Adds [] back (visibles back) where
  chars := by
    have chars := tokenChars_blank blank []
    rwa [List.append_nil, tokenChars_nil, List.append_nil] at chars
  same none offset := by
    have fills := filler_of_separators (visibles_eq_nil.mp none)
    rw [List.nil_append, tokensAt_lastFiller offset (.closed fills), tokensAt_nil]
  reaches some offset := by
    obtain ⟨token, mem, -⟩ := exists_start_lt blank some offset []
    rw [List.append_nil] at mem
    obtain ⟨start, nonempty, -⟩ := bounds_of_mem mem
    exact ⟨token, mem, start.trans_lt nonempty⟩

/-- A comment at the end of the text takes up the rest of its line. -/
theorem lastComment {text : List Char} (inside : ∀ c ∈ text, endsComment c = false) :
    ∃ extra, Adds (';' :: text) back extra := by
  have nothing := LastFiller.comment .nil inside
  rcases comment_cases back with insideBack | ⟨line, stop, more, rfl, insideLine, ends⟩
  · have nothingLonger :=
      LastFiller.comment .nil (List.forall_mem_append.mpr ⟨inside, insideBack⟩)
    refine ⟨[], ?_, fun _ offset => ?_, fun some => absurd rfl some⟩
    · rw [List.append_nil]
      exact (tokenChars_lastFiller nothingLonger).trans (tokenChars_lastFiller nothing).symm
    · exact (tokensAt_lastFiller offset nothingLonger).trans
        (tokensAt_lastFiller offset nothing).symm
  · have fills := Filler.comment (List.forall_mem_append.mpr ⟨inside, insideLine⟩) ends .nil
    have rest : Adds [] more (visibles more) :=
      .nil fun c mem => blank c (List.mem_append_right line (List.mem_cons_of_mem stop mem))
    refine ⟨_, (rest.filler fills).of_longer (by simp) (fun offset => ?_) ?_⟩
    · rw [List.append_nil]
      exact (tokensAt_lastFiller offset (.closed fills)).trans
        (tokensAt_lastFiller offset nothing).symm
    · simp only [byteLength_append, byteLength]
      omega

/-- An atom at the end of the text goes on with white space that does not separate. -/
theorem atom {c : Char} (starts : startsAtom c = true)
    (continues : ∀ other ∈ cs, continuesAtom other = true) (goesOn : ¬ Delimited back) :
    Adds (c :: cs) back (visibles back) := by
  obtain ⟨first, more, rfl, further⟩ : ∃ first more, back = first :: more ∧
      continuesAtom first = true := by simpa [Delimited] using goesOn
  have inside := continues_of_starts starts continues
  have insideLonger : ∀ other ∈ cs ++ first :: more.takeWhile continuesAtom,
      continuesAtom other = true := by
    refine List.forall_mem_append.mpr ⟨continues, List.forall_mem_cons.mpr ⟨further, ?_⟩⟩
    exact fun _ mem => List.mem_takeWhile_imp mem
  have longer := Scanned.atom starts insideLonger (delimited_dropWhile more)
  refine ⟨?_, fun none => ?_, fun _ => exists_reaches longer ?_ ?_⟩
  · have alone := tokenChars_append inside []
    have rest := (nil blank).chars
    rw [List.append_nil] at alone
    rw [List.nil_append] at rest
    rw [tokenChars_append inside, rest, alone, tokenChars_nil, List.append_nil, List.nil_append]
  · have separates := visibles_eq_nil.mp none first List.mem_cons_self
    exact absurd separates (by simp [of_continuesAtom further])
  · simp [TokenKind.text, List.takeWhile_append_dropWhile]
  · rw [TokenKind.text, String.toList_ofList, ← List.cons_append, byteLength_append]
    exact Nat.lt_add_of_pos_right (byteLength_pos (List.cons_ne_nil first _))

omit blank in
/-- A string without its closing quote goes on to the end, even after a backslash. -/
theorem string (alone : tokenChars ('"' :: cs) = '"' :: cs) (inside : StringBody (cs ++ back)) :
    Adds ('"' :: cs) back back := by
  have longer : Scanned (.string (.ofList ('"' :: cs ++ back))) [] := .openString inside rfl
  have text : (TokenKind.string (.ofList ('"' :: cs ++ back))).text.toList = '"' :: cs ++ back :=
    String.toList_ofList
  refine ⟨?_, fun none _ => ?_, fun some => exists_reaches longer ?_ ?_⟩
  · have chars := tokenChars_scanned longer
    rw [text, tokenChars_nil, List.append_nil] at chars
    rw [chars, alone]
  · rw [none, List.append_nil]
  · rw [text, List.append_nil]
  · rw [text, byteLength_append]
    exact Nat.lt_add_of_pos_right (byteLength_pos some)

end Adds

/-- After a string without its closing quote the text ends, or a backslash ends it or its line. -/
theorem exists_adds_openString {body after back : List Char} (inside : StringBody body)
    (ends : splitString after = ([], after)) (blank : ∀ c ∈ back, Text.isBlank c = true)
    (others : ∃ extra, Adds after back extra) :
    ∃ extra, Adds ('"' :: body ++ after) back extra := by
  have text : (TokenKind.string (.ofList ('"' :: body))).text.toList = '"' :: body :=
    String.toList_ofList
  have scanned := Scanned.openString inside ends
  have unchanged (longer : splitString (after ++ back) = ([], after ++ back)) :
      ∃ extra, Adds ('"' :: body ++ after) back extra := by
    obtain ⟨extra, adds⟩ := others
    exact ⟨extra, text ▸ adds.scanned scanned (.openString inside longer)⟩
  have alone := tokenChars_scanned scanned
  rw [text] at alone
  rcases splitString_stops ends with rfl | rfl | ⟨more, rfl⟩
  · rw [tokenChars_nil, List.append_nil] at alone
    rw [List.append_nil]
    exact ⟨_, .string alone (inside.append (stringBody_blank blank))⟩
  · cases back with
    | nil => exact unchanged ends
    | cons c back =>
        by_cases feed : c = '\n'
        · subst feed
          exact unchanged rfl
        · -- The backslash that was alone takes the white space after it into the string.
          have blankOthers : StringBody back :=
            stringBody_blank fun other mem => blank other (List.mem_cons_of_mem c mem)
          have single : tokenChars ['\\'] = ['\\'] := rfl
          rw [single] at alone
          exact ⟨_, .string alone (by simpa using inside.append (.escaped feed blankOthers))⟩
  · exact unchanged rfl

theorem exists_adds_scanned {kind : TokenKind} {after back : List Char}
    (scanned : Scanned kind after) (blank : ∀ c ∈ back, Text.isBlank c = true)
    (others : ∃ extra, Adds after back extra) :
    ∃ extra, Adds (kind.text.toList ++ after) back extra := by
  obtain ⟨extra, adds⟩ := others
  have unchanged (longer : Scanned kind (after ++ back)) :
      ∃ extra, Adds (kind.text.toList ++ after) back extra :=
    ⟨extra, adds.scanned scanned longer⟩
  cases scanned with
  | opening bracket => exact unchanged (.opening bracket _)
  | closing bracket => exact unchanged (.closing bracket _)
  | mark marker complete =>
      refine unchanged (.mark marker fun unquote more shape => ?_)
      cases after with
      | nil =>
          rw [List.nil_append] at shape
          exact ne_of_isBlank (blank '@' (by simp [shape])) rfl rfl
      | cons c after =>
          obtain ⟨rfl, -⟩ := List.cons.inj shape
          exact complete unquote after rfl
  | string inside => exact unchanged (.string inside _)
  | openString inside ends =>
      rw [TokenKind.text, String.toList_ofList]
      exact exists_adds_openString inside ends blank ⟨extra, adds⟩
  | atom starts continues ends =>
      by_cases delimited : Delimited (after ++ back)
      · exact unchanged (.atom starts continues delimited)
      · obtain rfl : after = [] := by
          cases after with
          | nil => rfl
          | cons c after => exact absurd (delimited_cons (ends c after rfl) _) delimited
        rw [TokenKind.text, String.toList_ofList, List.append_nil]
        exact ⟨_, .atom blank starts continues delimited⟩

/-- By induction on the text as it is divided: what stands in front of the last token changes nothing, and
the last token or comment decides. -/
theorem exists_adds {back : List Char} (blank : ∀ c ∈ back, Text.isBlank c = true)
    (cs : List Char) : ∃ extra, Adds cs back extra := by
  induction cs using text_induction with
  | nil => exact ⟨_, .nil blank⟩
  | separator c rest separates ih =>
      obtain ⟨extra, adds⟩ := ih
      have single : Filler [c] := .separator separates .nil
      exact ⟨extra, adds.filler single⟩
  | lastComment text inside => exact Adds.lastComment blank inside
  | comment text stop rest inside ends ih =>
      obtain ⟨extra, adds⟩ := ih
      have line : Filler (';' :: (text ++ [stop])) := .comment inside ends .nil
      have longer := adds.filler line
      rw [List.cons_append, List.append_assoc, List.singleton_append] at longer
      exact ⟨extra, longer⟩
  | token c rest notSeparator notComment ih =>
      have scanned := scanned_scanToken notSeparator notComment rest
      have longer := exists_adds_scanned scanned blank ih
      rwa [scanToken_append] at longer

/-! ## Separators after a text -/

/-- No token with its closing quote has a separator at its end. -/
theorem Scanned.not_separator {kind : TokenKind} {front rest : List Char} {c : Char}
    (scanned : Scanned kind rest) (accepted : Accepted kind)
    (text : kind.text.toList = front ++ [c]) : isSeparator c = false := by
  have last := congrArg List.getLast? text
  rw [List.getLast?_concat] at last
  cases scanned with
  | opening bracket | closing bracket =>
      rw [TokenKind.text, Char.toString_eq_singleton, String.toList_singleton] at last
      cases last
      cases bracket <;> rfl
  | mark marker _ =>
      rw [TokenKind.text, Marker.toList_text] at last
      cases marker <;> cases last <;> rfl
  | openString inside _ => exact absurd accepted (not_accepted_openString inside)
  | @string body inside _ =>
      rw [TokenKind.text, String.toList_ofList, ← List.cons_append, List.getLast?_concat] at last
      cases last
      rfl
  | @atom first others _ starts continues _ =>
      rw [TokenKind.text, String.toList_ofList] at last
      have inside := continues_of_starts starts continues
      exact (of_continuesAtom (inside c (List.mem_of_getLast? last))).1

theorem stop_le_of_separators {offset : Nat} {cs back : List Char} {token : Token}
    (mem : token ∈ tokensAt offset (cs ++ back)) (accepted : Accepted token.kind)
    (separate : ∀ c ∈ back, isSeparator c = true) :
    token.span.stop ≤ offset + byteLength cs := by
  obtain ⟨front, rest, shape, place, scanned⟩ :=
    (divided_tokensAt offset (cs ++ back)).scanned_of_mem mem
  rcases List.eq_nil_or_concat' token.kind.text.toList with empty | ⟨inner, c, text⟩
  · obtain ⟨first, more, nonempty, -⟩ := scanned.scans
    simp [empty] at nonempty
  have visible := scanned.not_separator accepted text
  have notInBack : c ∉ back := fun inside => absurd (separate c inside) (by simp [visible])
  have divided : cs ++ back = (front ++ inner) ++ c :: rest := by simp [shape, text]
  rcases List.append_eq_append_iff.mp divided with ⟨between, -, rfl⟩ | ⟨between, rfl, remaining⟩
  · exact absurd (by simp) notInBack
  · cases between with
    | nil =>
        obtain rfl : c :: rest = back := remaining
        exact absurd List.mem_cons_self notInBack
    | cons first between =>
        obtain ⟨rfl, -⟩ := List.cons.inj remaining
        have size := byteLength_toList token.kind.text
        rw [text] at size
        rw [place, TokenKind.placedAt, ← size]
        simp only [byteLength_append, byteLength]
        omega

/-- Tokens with their closing quotes do not reach into separators around them. -/
theorem bounds_of_separators {front cs back : List Char}
    (accepted : ∀ token ∈ tokensAt 0 (front ++ (cs ++ back)), Accepted token.kind)
    (separateFront : ∀ c ∈ front, isSeparator c = true)
    (separateBack : ∀ c ∈ back, isSeparator c = true) :
    ∀ token ∈ tokensAt 0 (front ++ (cs ++ back)),
      byteLength front ≤ token.span.start ∧ token.span.stop ≤ byteLength (front ++ cs) := by
  intro token mem
  have closed := accepted token mem
  rw [tokensAt_filler 0 (filler_of_separators separateFront), Nat.zero_add] at mem
  rw [byteLength_append]
  exact ⟨(bounds_of_mem mem).1, stop_le_of_separators mem closed separateBack⟩

/-! ## White space around a text -/

section

variable {front back : List Char} (blankFront : ∀ c ∈ front, Text.isBlank c = true)
  (blankBack : ∀ c ∈ back, Text.isBlank c = true) (cs : List Char)
include blankFront blankBack

/-- White space around a text leaves it the tokens that it has by itself, or else a token reaches into
the white space and no longer are all tokens the same. -/
theorem tokensAt_between :
    tokensAt 0 (front ++ (cs ++ back)) = tokensAt (byteLength front) cs ∨
      lexemes cs ≠ lexemes (front ++ (cs ++ back)) ∧
        ∃ token ∈ tokensAt 0 (front ++ (cs ++ back)),
          token.span.start < byteLength front ∨ byteLength (front ++ cs) < token.span.stop := by
  obtain ⟨extra, adds⟩ := exists_adds blankBack cs
  have chars : tokenChars (front ++ (cs ++ back)) = visibles front ++ (tokenChars cs ++ extra) := by
    rw [tokenChars_blank blankFront, adds.chars]
  have differ (some : visibles front ≠ [] ∨ extra ≠ []) :
      lexemes cs ≠ lexemes (front ++ (cs ++ back)) := by
    intro same
    rw [tokenChars, ← same, ← tokenChars] at chars
    have lengths := congrArg List.length chars
    simp only [List.length_append] at lengths
    rcases some with some | some
    · have positive := List.length_pos_iff.mpr some
      omega
    · have positive := List.length_pos_iff.mpr some
      omega
  by_cases noneFront : visibles front = []
  · have fills := filler_of_separators (visibles_eq_nil.mp noneFront)
    have moved : tokensAt 0 (front ++ (cs ++ back)) = tokensAt (byteLength front) (cs ++ back) := by
      rw [tokensAt_filler 0 fills, Nat.zero_add]
    by_cases noneBack : extra = []
    · exact .inl (moved.trans (adds.same noneBack _))
    · obtain ⟨token, mem, beyond⟩ := adds.reaches noneBack (byteLength front)
      refine .inr ⟨differ (.inr noneBack), token, moved ▸ mem, .inr ?_⟩
      rwa [byteLength_append]
  · obtain ⟨token, mem, before⟩ := exists_start_lt blankFront noneFront 0 (cs ++ back)
    rw [Nat.zero_add] at before
    exact .inr ⟨differ (.inl noneFront), token, mem, .inl before⟩

theorem lexemes_between_iff :
    lexemes cs = lexemes (front ++ (cs ++ back)) ↔
      ∀ token ∈ tokensAt 0 (front ++ (cs ++ back)), byteLength front ≤ token.span.start ∧
        token.span.stop ≤ byteLength (front ++ cs) := by
  rcases tokensAt_between blankFront blankBack cs with moved | ⟨differ, token, mem, outside⟩
  · refine iff_of_true ?_ fun token mem => ?_
    · rw [← kinds_tokensAt 0 (front ++ _), moved, kinds_tokensAt]
    · obtain ⟨start, -, stop⟩ := bounds_of_mem (moved ▸ mem)
      exact ⟨start, byteLength_append front cs ▸ stop⟩
  · refine iff_of_false differ fun inside => ?_
    obtain ⟨start, stop⟩ := inside token mem
    omega

end

end Lisp
