import Lisp.Proofs.Reader.Progress
import Lisp.Report

/-! Reports mark the text that an error is about: the bytes of its span are whole characters, and
they are the text of the token to blame or of the hash between its brackets. -/

set_option autoImplicit false

namespace Lisp

/-! ## The tokens to blame -/

/-- The tokens that an error among them is about. -/
inductive AboutTokens (tokens : List Token) : ParseError → Prop where
  | unexpected {found : Token} (present : found ∈ tokens) (expected : Expectation) :
      AboutTokens tokens (.unexpectedToken found expected)
  | string {token : Token} {text : String} (present : token ∈ tokens)
      (kind : token.kind = .string text) : AboutTokens tokens (.unterminatedString token.span)
  | hash {around inside rest : List Token} {brace closer : Token}
      (split : tokens = around ++ brace :: (inside ++ closer :: rest))
      (opens : brace.kind = .opening .curly) (closes : closer.kind = .closing .curly)
      (fault : HashFault) : AboutTokens tokens (.invalidHash (brace.span.merge closer.span) fault)
  | exhausted (expected : Expectation) : AboutTokens tokens (.unexpectedEnd expected)

theorem AboutTokens.append {tokens : List Token} {e : ParseError} (about : AboutTokens tokens e)
    (front : List Token) : AboutTokens (front ++ tokens) e := by
  cases about with
  | unexpected present expected => exact .unexpected (List.mem_append_right front present) expected
  | string present kind => exact .string (List.mem_append_right front present) kind
  | hash split opens closes fault =>
      subst split
      exact .hash (List.append_assoc _ _ _).symm opens closes fault
  | exhausted expected => exact .exhausted expected

theorem Blamed.aboutTokens {taken rest : List Token} {opened : OpenForms} {token : Token}
    {e : ParseError} (blamed : Blamed taken opened token e) :
    AboutTokens (taken ++ token :: rest) e := by
  have present : token ∈ taken ++ token :: rest := by simp
  cases blamed with
  | closer => exact .unexpected present _
  | string kind => exact .string present kind
  | hash split opens _ closes =>
      subst split
      exact .hash (List.append_assoc _ _ _) opens closes _

theorem aboutTokens_readOne {tokens rest : List Token} {e : ParseError} (nonempty : tokens ≠ [])
    (failed : readOne tokens = (.error e, rest)) : AboutTokens tokens e := by
  rcases readOne_cases nonempty with
    ⟨construct, outer, -, ended⟩ |
    ⟨front, token, after, opened, outcome, rfl, accounts, settles, ended⟩
  · cases failed.symm.trans ended
    exact .exhausted _
  · cases failed.symm.trans (ended after)
    exact (settles.blamed accounts).aboutTokens

theorem aboutTokens_readForms {rounds : Nat} {tokens : List Token} {values : List Value}
    {e : ParseError} (failed : readForms rounds tokens = (values, some e)) :
    AboutTokens tokens e := by
  induction rounds generalizing tokens values with
  | zero => cases failed
  | succ rounds ih =>
      rw [readForms] at failed
      rcases read : readOne tokens with ⟨cause | (_ | form), rest⟩
      · rw [read] at failed
        cases failed
        refine aboutTokens_readOne ?_ read
        rintro rfl
        cases read
      · rw [read] at failed
        cases failed
      · obtain ⟨front, rfl, -⟩ := readOne_iff_derives.mp read
        rw [read] at failed
        obtain ⟨-, later⟩ := Prod.mk.inj failed
        exact (ih (Prod.ext rfl later)).append front

theorem aboutTokens_readAll {source : String} {e : ParseError}
    (failed : readAll source = .error e) : AboutTokens (tokenize source) e := by
  rw [readAll, Script.ofText] at failed
  rcases read : readForms (tokenize source).length (tokenize source) with ⟨values, _ | cause⟩
  · simp [read] at failed
  · simp only [read, Except.error.injEq] at failed
    subst failed
    exact aboutTokens_readForms read

/-! ## Bytes and characters -/

/-- Where a text is divided between two characters, the index is the number of those before. -/
theorem charIndex?_byteLength (front back : List Char) :
    charIndex? (front ++ back) (byteLength front) = some front.length := by
  induction front with
  | nil => cases back <;> rfl
  | cons c front ih =>
      obtain ⟨bytes, positive⟩ : ∃ bytes, byteLength (c :: front) = bytes + 1 :=
        Nat.exists_eq_add_one.mpr (byteLength_pos (List.cons_ne_nil c front))
      have rest : bytes + 1 - c.utf8Size = byteLength front := by
        rw [← positive, byteLength, Nat.add_sub_cancel_left]
      have fits : c.utf8Size ≤ bytes + 1 := by
        rw [← positive, byteLength]
        exact Nat.le_add_right _ _
      rw [positive, List.cons_append, charIndex?, if_pos fits, rest, ih]
      rfl

theorem size_toByteArray_ofList (cs : List Char) :
    (String.ofList cs).toByteArray.size = byteLength cs := by
  rw [String.size_toByteArray, byteLength_ofList]

private theorem extract_middle (before shown after : ByteArray) :
    (before ++ (shown ++ after)).extract before.size (before.size + shown.size) = shown := by
  have behind := ByteArray.extract_append_size_add (a := before) (b := shown ++ after) (i := 0)
    (j := shown.size)
  rw [Nat.add_zero] at behind
  rw [behind, ByteArray.extract_append_eq_left rfl]

/-- A report marks `shown`: the bytes of the span are those characters, and they are the ones in
the marked range. Both ends of the span lie between characters. -/
structure Marks (source : String) (span : Span) (marked : CharRange) (shown : List Char) :
    Prop where
  occupies : Occupies source.toList span shown
  start : charIndex? source.toList span.start = some marked.start
  stop : charIndex? source.toList span.stop = some marked.stop
  characters : (source.toList.take marked.stop).drop marked.start = shown
  bytes : source.toByteArray.extract span.start span.stop = (String.ofList shown).toByteArray

theorem Occupies.marks {source : String} {span : Span} {shown : List Char}
    (occupies : Occupies source.toList span shown) :
    Marks source span (span.charRange source.toList) shown := by
  have placed := occupies
  obtain ⟨before, after, shape, start, stop⟩ := placed
  have first : charIndex? source.toList span.start = some before.length := by
    rw [shape, ← start, charIndex?_byteLength]
  have last : charIndex? source.toList span.stop = some (before ++ shown).length := by
    rw [shape, ← List.append_assoc, ← stop, charIndex?_byteLength]
  have range : span.charRange source.toList = ⟨before.length, (before ++ shown).length⟩ := by
    rw [Span.charRange, first, last]
    rfl
  rw [range]
  refine ⟨occupies, first, last, ?_, ?_⟩
  · rw [shape, ← List.append_assoc, List.take_left, List.drop_left]
  · have divided : source = .ofList before ++ (.ofList shown ++ .ofList after) := by
      rw [← String.ofList_append, ← String.ofList_append, ← shape, String.ofList_toList]
    have middle := extract_middle (String.ofList before).toByteArray
      (String.ofList shown).toByteArray (String.ofList after).toByteArray
    rw [size_toByteArray_ofList, size_toByteArray_ofList, ← byteLength_append, start, stop] at middle
    rwa [divided, String.toByteArray_append, String.toByteArray_append]

/-! ## Texts -/

/-- From one stretch of the text to another behind it. -/
theorem Occupies.through {source first last : List Char} {a b : Span}
    (opening : Occupies source a first) (closing : Occupies source b last)
    (apart : a.stop ≤ b.start) :
    ∃ inside, Occupies source ⟨a.start, b.stop⟩ (first ++ (inside ++ last)) := by
  obtain ⟨before, after, shape, start, stop⟩ := opening
  obtain ⟨before', after', shape', start', stop'⟩ := closing
  have front : before ++ first <+: source := ⟨after, by rw [shape, List.append_assoc]⟩
  have back : before' <+: source := ⟨last ++ after', shape'.symm⟩
  -- The first stretch ends no later than the last one begins, so what ends there comes first.
  obtain ⟨inside, rfl⟩ : before ++ first <+: before' := by
    rcases List.prefix_or_prefix_of_prefix front back with ahead | ⟨more, longer⟩
    · exact ahead
    · have lengths := congrArg byteLength longer
      rw [byteLength_append] at lengths
      have none_left : more = [] := by
        by_contra left
        have positive := byteLength_pos left
        omega
      subst none_left
      exact ⟨[], by rw [List.append_nil, ← longer, List.append_nil]⟩
  refine ⟨inside, before, after', ?_, start, ?_⟩
  · rw [shape']
    simp only [List.append_assoc]
  · rw [← stop']
    simp only [List.append_assoc]

theorem Partitions.merged {source : List Char} {around inside rest : List Token}
    {brace closer : Token}
    (partitions : Partitions source (around ++ brace :: (inside ++ closer :: rest))) :
    brace.span.stop ≤ closer.span.start ∧
      brace.span.merge closer.span = ⟨brace.span.start, closer.span.stop⟩ := by
  have ordered := (List.pairwise_append.mp partitions.ordered).2.1
  have apart : brace.span.stop ≤ closer.span.start :=
    (List.pairwise_cons.mp ordered).1 closer (by simp)
  have forward := partitions.nonempty brace (by simp)
  have forward' := partitions.nonempty closer (by simp)
  refine ⟨apart, ?_⟩
  rw [Span.merge, Span.mk.injEq]
  omega

/-- The text that an error shows. -/
inductive Shows : ParseError → List Char → Prop where
  | token (found : Token) (expected : Expectation) :
      Shows (.unexpectedToken found expected) found.kind.text.toList
  | string (span : Span) (written : List Char) : Shows (.unterminatedString span) ('"' :: written)
  | hash (span : Span) (fault : HashFault) (inside : List Char) :
      Shows (.invalidHash span fault) ('\x7b' :: (inside ++ ['\x7d']))

theorem Partitions.shows {source : List Char} {tokens : List Token} {e : ParseError} {span : Span}
    (partitions : Partitions source tokens) (about : AboutTokens tokens e)
    (placed : e.span? = some span) : ∃ shown, Occupies source span shown ∧ Shows e shown := by
  cases about with
  | unexpected present expected =>
      cases placed
      exact ⟨_, partitions.placed _ present, .token _ expected⟩
  | @string token text present kind =>
      cases placed
      have occupies := partitions.placed token present
      have lexeme := partitions.matched token present
      rw [kind] at occupies lexeme
      cases lexeme with
      | openString | string =>
          rw [TokenKind.text, String.toList_ofList] at occupies
          exact ⟨_, occupies, .string _ _⟩
  | @hash around inside rest brace closer split opens closes fault =>
      cases placed
      subst split
      obtain ⟨apart, merged⟩ := partitions.merged
      have opening := partitions.placed brace (by simp)
      have closing := partitions.placed closer (by simp)
      rw [opens] at opening
      rw [closes] at closing
      obtain ⟨between, occupies⟩ := opening.through closing apart
      rw [merged]
      exact ⟨_, occupies, .hash _ fault between⟩
  | exhausted expected => cases placed

/-- The report of a parse error marks the text that the error is about, character for character;
an error at the end of the text is reported behind the last character. -/
theorem report_marks {source : String} {e : ParseError} (failed : readAll source = .error e)
    (name : String) :
    (∀ span, e.span? = some span → ∃ shown, Shows e shown ∧
      Marks source span (e.report name source).marked shown ∧
      (e.report name source).place =
        Place.ofCharIndex source.toList (e.report name source).marked.start) ∧
    (∀ expected, e = .unexpectedEnd expected →
      (e.report name source).marked = ⟨source.toList.length, source.toList.length⟩ ∧
      (e.report name source).place = Place.ofCharIndex source.toList source.toList.length) := by
  constructor
  · intro span placed
    obtain ⟨shown, occupies, shows⟩ :=
      (tokenize_partitions source).shows (aboutTokens_readAll failed) placed
    have range : (e.report name source).marked = span.charRange source.toList := by
      rw [ParseError.report, ParseError.charRange, placed]
    refine ⟨shown, shows, ?_, rfl⟩
    rw [range]
    exact occupies.marks
  · rintro expected rfl
    exact ⟨rfl, rfl⟩

/-- The faulty hash stands within a list, behind characters of several bytes. -/
theorem report_marks_nested :
    readAll "(λ \x7bé [\"→\"] x\x7d y)" = .error (.invalidHash ⟨4, 18⟩ .oddCount) ∧
      Marks "(λ \x7bé [\"→\"] x\x7d y)" ⟨4, 18⟩ ⟨3, 14⟩ "\x7bé [\"→\"] x\x7d".toList := by
  have failed : readAll "(λ \x7bé [\"→\"] x\x7d y)" = .error (.invalidHash ⟨4, 18⟩ .oddCount) :=
    rfl
  obtain ⟨shown, -, marks, -⟩ := (report_marks failed "entry").1 ⟨4, 18⟩ rfl
  have same : shown = "\x7bé [\"→\"] x\x7d".toList := marks.characters.symm
  exact ⟨failed, same ▸ marks⟩

end Lisp
