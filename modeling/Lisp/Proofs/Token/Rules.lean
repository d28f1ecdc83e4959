import Lisp.Proofs.Text.Quoted
import Lisp.Proofs.Token.Places

/-! Which rule scans a token, and what may stand after it. Most tokens end where they do whatever
comes next. Atoms, the unquote mark and strings without a closing quote go on as far as they can. -/

set_option autoImplicit false

namespace Lisp

/-- What stands between the quotes of a string. A backslash belongs to the character after it,
which is not a line feed. -/
inductive StringBody : List Char → Prop where
  | nil : StringBody []
  | plain {c : Char} {rest : List Char} (noQuote : c ≠ '"') (noBackslash : c ≠ '\\')
      (others : StringBody rest) : StringBody (c :: rest)
  | escaped {c : Char} {rest : List Char} (sameLine : c ≠ '\n') (others : StringBody rest) :
      StringBody ('\\' :: c :: rest)

/-- No atom that stands before the text goes on in it. -/
def Delimited (rest : List Char) : Prop :=
  ∀ c more, rest = c :: more → continuesAtom c = false

/-- In front of `rest`, the text of a token is scanned as that token. -/
inductive Scanned : TokenKind → (rest : List Char) → Prop where
  | opening (bracket : Bracket) (rest : List Char) : Scanned (.opening bracket) rest
  | closing (bracket : Bracket) (rest : List Char) : Scanned (.closing bracket) rest
  | mark (marker : Marker) {rest : List Char}
      (complete : marker = .unquote → ∀ more, rest ≠ '@' :: more) : Scanned (.mark marker) rest
  | openString {body rest : List Char} (inside : StringBody body)
      (ends : splitString rest = ([], rest)) : Scanned (.string (.ofList ('"' :: body))) rest
  | string {body : List Char} (inside : StringBody body) (rest : List Char) :
      Scanned (.string (.ofList ('"' :: (body ++ ['"'])))) rest
  | atom {c : Char} {cs rest : List Char} (starts : startsAtom c = true)
      (continues : ∀ other ∈ cs, continuesAtom other = true) (ends : Delimited rest) :
      Scanned (.atom (.ofList (c :: cs))) rest

/-! ## Strings -/

theorem StringBody.append {body tail : List Char} (inside : StringBody body)
    (others : StringBody tail) : StringBody (body ++ tail) := by
  induction inside with
  | nil => exact others
  | plain noQuote noBackslash _ ih => exact .plain noQuote noBackslash ih
  | escaped sameLine _ ih => exact .escaped sameLine ih

theorem splitString_plain {c : Char} (noQuote : c ≠ '"') (noBackslash : c ≠ '\\')
    (rest : List Char) :
    splitString (c :: rest) = (c :: (splitString rest).1, (splitString rest).2) := by
  simp [splitString, noBackslash]

theorem splitString_escaped {c : Char} (sameLine : c ≠ '\n') (rest : List Char) :
    splitString ('\\' :: c :: rest) =
      ('\\' :: c :: (splitString rest).1, (splitString rest).2) := by
  simp [splitString]

theorem StringBody.splitString_append {body : List Char} (inside : StringBody body)
    (rest : List Char) :
    splitString (body ++ rest) = (body ++ (splitString rest).1, (splitString rest).2) := by
  induction inside with
  | nil => rfl
  | plain noQuote noBackslash _ ih =>
      rw [List.cons_append, splitString_plain noQuote noBackslash, ih, List.cons_append]
  | escaped sameLine _ ih =>
      rw [List.cons_append, List.cons_append, splitString_escaped sameLine, ih, List.cons_append,
        List.cons_append]

/-- A string ends at the first quote that stands for itself. -/
theorem StringBody.splitString_closed {body : List Char} (inside : StringBody body)
    (rest : List Char) : splitString (body ++ '"' :: rest) = (body ++ ['"'], rest) := by
  rw [inside.splitString_append]
  rfl

theorem splitString_body (cs : List Char) :
    ∃ body, StringBody body ∧
      ((splitString cs).1 = body ++ ['"'] ∨
        (splitString cs).1 = body ∧ splitString (splitString cs).2 = ([], (splitString cs).2)) := by
  fun_induction splitString cs with
  | case1 | case3 | case4 => exact ⟨[], .nil, .inr ⟨rfl, rfl⟩⟩
  | case2 rest => exact ⟨[], .nil, .inl rfl⟩
  | case5 c rest sameLine inside after split ih =>
      rw [split] at ih
      obtain ⟨body, allowed, ends⟩ := ih
      exact ⟨'\\' :: c :: body, .escaped sameLine allowed, by simpa using ends⟩
  | case6 c rest noQuote noFeed noEnd noPair inside after split ih =>
      -- A backslash always belongs to one of the patterns before this one.
      have noBackslash : c ≠ '\\' := by
        intro backslash
        cases rest with
        | nil => exact noEnd backslash rfl
        | cons next more => exact noPair next more backslash rfl
      rw [split] at ih
      obtain ⟨body, allowed, ends⟩ := ih
      exact ⟨c :: body, .plain noQuote noBackslash allowed, by simpa using ends⟩

/-- Where a string without a closing quote ends: at the end of the text, before a backslash there,
or before a backslash at the end of a line. -/
theorem splitString_stops {rest : List Char} (ends : splitString rest = ([], rest)) :
    rest = [] ∨ rest = ['\\'] ∨ ∃ more, rest = '\\' :: '\n' :: more := by
  cases rest with
  | nil => exact .inl rfl
  | cons c rest =>
      by_cases quote : c = '"'
      · subst quote
        cases ends
      by_cases backslash : c = '\\'
      · subst backslash
        cases rest with
        | nil => exact .inr (.inl rfl)
        | cons next more =>
            by_cases feed : next = '\n'
            · exact .inr (.inr ⟨more, by rw [feed]⟩)
            · rw [splitString_escaped feed] at ends
              cases ends
      · rw [splitString_plain quote backslash] at ends
        cases ends

/-! ## Atoms -/

theorem of_continuesAtom {c : Char} (continues : continuesAtom c = true) :
    isSeparator c = false ∧ Bracket.ofOpener? c = none ∧ Bracket.ofCloser? c = none ∧ c ≠ ';' ∧
      c ≠ '\x27' ∧ c ≠ '\x60' ∧ c ≠ '"' := by
  simpa [continuesAtom, and_assoc] using continues

theorem continuesAtom_of_startsAtom {c : Char} (starts : startsAtom c = true) :
    continuesAtom c = true :=
  ((Bool.and_eq_true _ _).mp starts).1

theorem continues_of_starts {c : Char} {cs : List Char} (starts : startsAtom c = true)
    (continues : ∀ other ∈ cs, continuesAtom other = true) :
    ∀ other ∈ c :: cs, continuesAtom other = true :=
  List.forall_mem_cons.mpr ⟨continuesAtom_of_startsAtom starts, continues⟩

theorem delimited_dropWhile (cs : List Char) : Delimited (cs.dropWhile continuesAtom) := by
  intro c more shape
  have head := List.head_dropWhile_not continuesAtom (l := cs) (by simp [shape])
  simpa [shape] using head

theorem delimited_nil : Delimited [] := by
  intro c more shape
  cases shape

theorem delimited_cons {c : Char} (stops : continuesAtom c = false) (rest : List Char) :
    Delimited (c :: rest) := by
  intro first more shape
  cases shape
  exact stops

theorem delimited_separator {c : Char} (separates : isSeparator c = true) (rest : List Char) :
    Delimited (c :: rest) :=
  delimited_cons (by simp [continuesAtom, separates]) rest

theorem Delimited.takeWhile {rest : List Char} (ends : Delimited rest) :
    rest.takeWhile continuesAtom = [] := by
  cases rest with
  | nil => rfl
  | cons c more => exact List.takeWhile_cons_of_neg (by simp [ends c more rfl])

theorem Delimited.dropWhile {rest : List Char} (ends : Delimited rest) :
    rest.dropWhile continuesAtom = rest := by
  cases rest with
  | nil => rfl
  | cons c more => exact List.dropWhile_cons_of_neg (by simp [ends c more rfl])

theorem scanToken_atom {c : Char} (starts : startsAtom c = true) (rest : List Char) :
    scanToken c rest = (.atom (.ofList (c :: rest.takeWhile continuesAtom)),
      rest.dropWhile continuesAtom) := by
  obtain ⟨continues, notMark⟩ := (Bool.and_eq_true _ _).mp starts
  obtain ⟨-, noOpener, noCloser, -, noQuote, noQuasi, noString⟩ := of_continuesAtom continues
  have noUnquote : c ≠ '~' := of_decide_eq_true notMark
  rw [scanToken.eq_def, noOpener, noCloser]
  simp only [noQuote, noQuasi, noString, noUnquote, if_false]

/-! ## Tokens -/

theorem scanToken_string (rest : List Char) :
    scanToken '"' rest = (.string (.ofList ('"' :: (splitString rest).1)), (splitString rest).2) :=
  rfl

theorem scanToken_unquote {rest : List Char} (notSplice : ∀ more, rest ≠ '@' :: more) :
    scanToken '~' rest = (.mark .unquote, rest) := by
  have noOpener : Bracket.ofOpener? '~' = none := rfl
  have noCloser : Bracket.ofCloser? '~' = none := rfl
  rw [scanToken.eq_def, noOpener, noCloser]
  dsimp only
  rw [if_neg (by decide), if_neg (by decide), if_pos rfl]
  split
  · exact absurd rfl (notSplice _)
  · rfl

theorem scanned_scanToken {c : Char} (notSeparator : isSeparator c = false) (notComment : c ≠ ';')
    (rest : List Char) : Scanned (scanToken c rest).1 (scanToken c rest).2 := by
  cases opens : Bracket.ofOpener? c with
  | some bracket =>
      have scans : scanToken c rest = (.opening bracket, rest) := by rw [scanToken.eq_def, opens]
      rw [scans]
      exact .opening bracket rest
  | none =>
      cases closes : Bracket.ofCloser? c with
      | some bracket =>
          have scans : scanToken c rest = (.closing bracket, rest) := by
            rw [scanToken.eq_def, opens, closes]
          rw [scans]
          exact .closing bracket rest
      | none =>
          by_cases quote : c = '\x27'
          · subst quote
            exact .mark .quote fun other => absurd other (by decide)
          by_cases quasi : c = '\x60'
          · subst quasi
            exact .mark .quasiquote fun other => absurd other (by decide)
          by_cases unquote : c = '~'
          · subst unquote
            by_cases splice : ∃ more, rest = '@' :: more
            · obtain ⟨more, rfl⟩ := splice
              exact .mark .splice fun other => absurd other (by decide)
            · have notSplice : ∀ more, rest ≠ '@' :: more := fun more shape => splice ⟨more, shape⟩
              rw [scanToken_unquote notSplice]
              exact .mark .unquote fun _ => notSplice
          by_cases string : c = '"'
          · subst string
            obtain ⟨body, inside, closed | ⟨unclosed, ends⟩⟩ := splitString_body rest
            · rw [scanToken_string, closed]
              exact .string inside _
            · rw [scanToken_string, unclosed]
              exact .openString inside ends
          have starts : startsAtom c = true := by
            simp [startsAtom, continuesAtom, notSeparator, opens, closes, notComment, quote, quasi,
              unquote, string]
          rw [scanToken_atom starts]
          exact .atom starts (fun _ mem => List.mem_takeWhile_imp mem) (delimited_dropWhile rest)

theorem Scanned.scans {kind : TokenKind} {rest : List Char} (scanned : Scanned kind rest) :
    ∃ c more, kind.text.toList = c :: more ∧ isSeparator c = false ∧ c ≠ ';' ∧
      scanToken c (more ++ rest) = (kind, rest) := by
  cases scanned with
  | opening bracket => exact ⟨bracket.opener, [], by cases bracket <;> exact ⟨rfl, rfl, nofun, rfl⟩⟩
  | closing bracket => exact ⟨bracket.closer, [], by cases bracket <;> exact ⟨rfl, rfl, nofun, rfl⟩⟩
  | mark marker complete =>
      cases marker with
      | quote => exact ⟨'\x27', [], rfl, rfl, nofun, rfl⟩
      | quasiquote => exact ⟨'\x60', [], rfl, rfl, nofun, rfl⟩
      | splice => exact ⟨'~', ['@'], rfl, rfl, nofun, rfl⟩
      | unquote =>
          exact ⟨'~', [], rfl, rfl, nofun, scanToken_unquote (complete rfl)⟩
  | @openString body _ inside ends =>
      refine ⟨'"', body, by simp [TokenKind.text], rfl, nofun, ?_⟩
      rw [scanToken_string, inside.splitString_append, ends, List.append_nil]
  | @string body inside =>
      refine ⟨'"', body ++ ['"'], by simp [TokenKind.text], rfl, nofun, ?_⟩
      rw [List.append_assoc, List.singleton_append, scanToken_string, inside.splitString_closed]
  | @atom c cs _ starts continues ends =>
      obtain ⟨notSeparator, -, -, notComment, -⟩ :=
        of_continuesAtom (continuesAtom_of_startsAtom starts)
      refine ⟨c, cs, by simp [TokenKind.text], notSeparator, notComment, ?_⟩
      rw [scanToken_atom starts, List.takeWhile_append_of_pos continues,
        List.dropWhile_append_of_pos continues, ends.takeWhile, ends.dropWhile, List.append_nil]

/-! ## Other contexts -/

/-- A string token has its closing quote. -/
def Accepted : TokenKind → Prop
  | .string text => (Text.unquote? text).isSome = true
  | _ => True

instance : DecidablePred Accepted
  | .string text => inferInstanceAs (Decidable ((Text.unquote? text).isSome = true))
  | .opening _ | .closing _ | .mark _ | .atom _ => .isTrue trivial

/-- A quote at the end closes the string, unless it belongs to a backslash. -/
private theorem not_stringBody_closed {written meaning : List Char}
    (denotes : Text.Written written meaning) : ¬ StringBody (written ++ ['"']) := by
  induction denotes with
  | nil =>
      intro inside
      cases inside with
      | plain noQuote _ _ => exact noQuote rfl
  | @plain c written _ plain _ ih =>
      rw [List.cons_append]
      generalize written ++ ['"'] = rest at ih
      intro inside
      cases inside with
      | plain _ _ others => exact ih others
      | escaped _ _ => exact plain rfl
  | @escaped c written _ _ ih =>
      rw [List.cons_append, List.cons_append]
      generalize written ++ ['"'] = rest at ih
      intro inside
      cases inside with
      | plain _ noBackslash _ => exact noBackslash rfl
      | escaped _ others => exact ih others

theorem not_accepted_openString {body : List Char} (inside : StringBody body) :
    ¬ Accepted (.string (.ofList ('"' :: body))) := by
  intro accepted
  obtain ⟨meaning, found⟩ := Option.isSome_iff_exists.mp accepted
  obtain ⟨first, written, meaning', shape, denotes, -⟩ := Text.unquote?_eq_some.mp found
  rw [String.toList_ofList] at shape
  obtain ⟨-, rfl⟩ := List.cons.inj shape
  exact not_stringBody_closed denotes inside

theorem StringBody.written {body : List Char} (inside : StringBody body) :
    ∃ meaning, Text.Written body meaning := by
  induction inside with
  | nil => exact ⟨[], .nil⟩
  | plain _ noBackslash _ ih =>
      obtain ⟨meaning, written⟩ := ih
      exact ⟨_, .plain noBackslash written⟩
  | escaped _ _ ih =>
      obtain ⟨meaning, written⟩ := ih
      exact ⟨_, .escaped _ written⟩

theorem accepted_string {body : List Char} (inside : StringBody body) :
    Accepted (.string (.ofList ('"' :: (body ++ ['"'])))) := by
  obtain ⟨meaning, written⟩ := inside.written
  exact Option.isSome_of_eq_some
    (Text.unquote?_eq_some.mpr ⟨'"', body, meaning, String.toList_ofList, written, rfl⟩)

/-- A token with its closing quote is scanned in front of every text that it cannot go on in. -/
theorem Scanned.before {kind : TokenKind} {rest rest' : List Char} (scanned : Scanned kind rest)
    (accepted : Accepted kind) (delimited : Delimited rest → Delimited rest')
    (notSplice : (∀ more, rest ≠ '@' :: more) → ∀ more, rest' ≠ '@' :: more) :
    Scanned kind rest' := by
  cases scanned with
  | opening bracket => exact .opening bracket rest'
  | closing bracket => exact .closing bracket rest'
  | mark marker complete => exact .mark marker fun unquote => notSplice (complete unquote)
  | openString inside _ => exact absurd accepted (not_accepted_openString inside)
  | string inside => exact .string inside rest'
  | atom starts continues ends => exact .atom starts continues (delimited ends)

theorem Delimited.ne_splice {rest : List Char} (ends : Delimited rest) (more : List Char) :
    rest ≠ '@' :: more := by
  intro shape
  exact absurd (ends '@' more shape) (by decide)

theorem Scanned.before_delimited {kind : TokenKind} {rest rest' : List Char}
    (scanned : Scanned kind rest) (accepted : Accepted kind) (ends : Delimited rest') :
    Scanned kind rest' :=
  scanned.before accepted (fun _ => ends) fun _ => ends.ne_splice

/-- What comes after a text that is not empty does not reach the token before it. -/
theorem Scanned.append_of_ne_nil {kind : TokenKind} {rest : List Char}
    (scanned : Scanned kind rest) (accepted : Accepted kind) (nonempty : rest ≠ [])
    (after : List Char) : Scanned kind (rest ++ after) := by
  obtain ⟨c, rest, rfl⟩ := List.exists_cons_of_ne_nil nonempty
  refine scanned.before accepted (fun delimited => ?_) fun notSplice => ?_
  · exact delimited_cons (delimited c rest rfl) (rest ++ after)
  · intro more shape
    cases shape
    exact notSplice rest rfl

theorem Scanned.append {kind : TokenKind} {rest : List Char} (scanned : Scanned kind rest)
    (accepted : Accepted kind) {after : List Char} (ends : Delimited after) :
    Scanned kind (rest ++ after) := by
  cases rest with
  | nil => exact scanned.before_delimited accepted ends
  | cons c rest => exact scanned.append_of_ne_nil accepted (List.cons_ne_nil c rest) after

end Lisp
