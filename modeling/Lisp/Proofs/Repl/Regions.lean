import Lisp.Proofs.Token.Lexemes
import Lisp.Repl.Balance

/-! Judging an entry character by character comes to the same as judging its tokens, where the two
ways of finding comments and strings agree. They differ on comments that a carriage return ends and
on strings with a backslash at the end of a line. -/

set_option autoImplicit false

namespace Lisp.Repl

/-! ## Regions -/

def Region.next : Region → Char → Region
  | .code, c => if c = '"' then .string false else if c = ';' then .comment else .code
  | .comment, c => if c = '\n' then .code else .comment
  | .string escaped, c => afterStringChar escaped c

/-- The region after a text that starts in `region`. -/
def regionAfter (region : Region) (text : List Char) : Region :=
  text.foldl Region.next region

theorem regionAfter_append (region : Region) (front rest : List Char) :
    regionAfter region (front ++ rest) = regionAfter (regionAfter region front) rest :=
  List.foldl_append

/-- A carriage return in a comment stands at the end of its line. -/
def CommentsEndLines (region : Region) (text : List Char) : Prop :=
  ∀ before after, text = before ++ '\r' :: after → regionAfter region before = .comment →
    after = [] ∨ after.head? = some '\n'

/-- A backslash that escapes in a string does not stand at the end of a line. -/
def StringsKeepLines (region : Region) (text : List Char) : Prop :=
  ∀ before after, text = before ++ '\n' :: after → regionAfter region before ≠ .string true

theorem CommentsEndLines.append {region : Region} {front rest : List Char}
    (comments : CommentsEndLines region (front ++ rest)) :
    CommentsEndLines (regionAfter region front) rest := by
  rintro before after rfl inside
  rw [← regionAfter_append] at inside
  exact comments (front ++ before) after (List.append_assoc _ _ _).symm inside

theorem StringsKeepLines.append {region : Region} {front rest : List Char}
    (strings : StringsKeepLines region (front ++ rest)) :
    StringsKeepLines (regionAfter region front) rest := by
  rintro before after rfl
  rw [← regionAfter_append]
  exact strings (front ++ before) after (List.append_assoc _ _ _).symm

theorem commentsEndLines_cons {region : Region} {c : Char} {rest : List Char} :
    CommentsEndLines region (c :: rest) ↔
      (c = '\r' → region = .comment → rest = [] ∨ rest.head? = some '\n') ∧
        CommentsEndLines (region.next c) rest := by
  constructor
  · intro comments
    refine ⟨?_, @CommentsEndLines.append region [c] rest comments⟩
    rintro rfl inside
    exact comments [] rest rfl inside
  · rintro ⟨first, others⟩ before after shape inside
    cases before with
    | nil =>
        obtain ⟨rfl, rfl⟩ := List.cons.inj shape
        exact first rfl inside
    | cons c' before =>
        obtain ⟨rfl, rfl⟩ := List.cons.inj shape
        exact others before after rfl inside

theorem stringsKeepLines_cons {region : Region} {c : Char} {rest : List Char} :
    StringsKeepLines region (c :: rest) ↔
      (c = '\n' → region ≠ .string true) ∧ StringsKeepLines (region.next c) rest := by
  constructor
  · intro strings
    refine ⟨?_, @StringsKeepLines.append region [c] rest strings⟩
    rintro rfl
    exact strings [] rest rfl
  · rintro ⟨first, others⟩ before after shape
    cases before with
    | nil =>
        obtain ⟨rfl, rfl⟩ := List.cons.inj shape
        exact first rfl
    | cons c' before =>
        obtain ⟨rfl, rfl⟩ := List.cons.inj shape
        exact others before after rfl

instance decidableCommentsEndLines (region : Region) :
    (text : List Char) → Decidable (CommentsEndLines region text)
  | [] => .isTrue fun before _ shape => by cases before <;> cases shape
  | c :: rest =>
    have := decidableCommentsEndLines (region.next c) rest
    decidable_of_iff' _ commentsEndLines_cons

instance decidableStringsKeepLines (region : Region) :
    (text : List Char) → Decidable (StringsKeepLines region text)
  | [] => .isTrue fun before _ shape => by cases before <;> cases shape
  | c :: rest =>
    have := decidableStringsKeepLines (region.next c) rest
    decidable_of_iff' _ stringsKeepLines_cons

/-! ## Characters -/

def Bracketless (c : Char) : Prop :=
  Bracket.ofOpener? c = none ∧ Bracket.ofCloser? c = none

theorem judgeFrom_next {region : Region} {c : Char} (quiet : region = .code → Bracketless c)
    (opened : List Bracket) (position : Nat) (rest : List Char) :
    judgeFrom region opened position (c :: rest) =
      judgeFrom (region.next c) opened (position + c.utf8Size) rest := by
  cases region with
  | comment => rfl
  | string escaped => rfl
  | code =>
      obtain ⟨noOpener, noCloser⟩ := quiet rfl
      rw [judgeFrom, Region.next, noOpener, noCloser]
      dsimp only
      split_ifs <;> rfl

theorem judgeFrom_opener (bracket : Bracket) (opened : List Bracket) (position : Nat)
    (rest : List Char) :
    judgeFrom .code opened position (bracket.opener :: rest) =
      judgeFrom .code (bracket :: opened) (position + bracket.opener.utf8Size) rest := by
  cases bracket <;> rfl

theorem judgeFrom_closer (bracket : Bracket) (opened : List Bracket) (position : Nat)
    (rest : List Char) :
    judgeFrom .code opened position (bracket.closer :: rest) =
      match opened with
      | [] => .invalid bracket.closer position
      | top :: outer =>
        if top = bracket then judgeFrom .code outer (position + bracket.closer.utf8Size) rest
        else .invalid bracket.closer position := by
  cases bracket <;> rfl

/-! ## Texts without brackets -/

/-- The text leads from one region to the other, and brackets stand in it only inside of strings
and comments. -/
inductive Passes : Region → List Char → Region → Prop where
  | nil (region : Region) : Passes region [] region
  | cons {region last : Region} {c : Char} {rest : List Char}
      (quiet : region = .code → Bracketless c) (others : Passes (region.next c) rest last) :
      Passes region (c :: rest) last

theorem Passes.judgeFrom_append {region last : Region} {front : List Char}
    (passes : Passes region front last) (opened : List Bracket) (position : Nat)
    (rest : List Char) :
    judgeFrom region opened position (front ++ rest) =
      judgeFrom last opened (position + byteLength front) rest := by
  induction passes generalizing position with
  | nil => rfl
  | cons quiet _ ih =>
      rw [List.cons_append, judgeFrom_next quiet, ih, byteLength, Nat.add_assoc]

theorem Passes.regionAfter_eq {region last : Region} {front : List Char}
    (passes : Passes region front last) : regionAfter region front = last := by
  induction passes with
  | nil => rfl
  | cons _ _ ih => exact ih

theorem Passes.append {region middle last : Region} {front back : List Char}
    (first : Passes region front middle) (second : Passes middle back last) :
    Passes region (front ++ back) last := by
  induction first with
  | nil => exact second
  | cons quiet _ ih => exact .cons quiet (ih second)

theorem Passes.single {region : Region} {c : Char} (quiet : region = .code → Bracketless c) :
    Passes region [c] (region.next c) :=
  .cons quiet (.nil _)

theorem passes_separator {c : Char} (separates : isSeparator c = true) :
    Passes .code [c] .code := by
  simp only [isSeparator, Bool.or_eq_true, decide_eq_true_eq] at separates
  rcases separates with ((((rfl | rfl) | rfl) | rfl) | rfl) | rfl <;>
    exact .single fun _ => ⟨rfl, rfl⟩

theorem passes_comment {text : List Char} (inside : ∀ c ∈ text, endsComment c = false) :
    Passes .comment text .comment := by
  induction text with
  | nil => exact .nil _
  | cons c rest ih =>
      obtain ⟨first, others⟩ := List.forall_mem_cons.mp inside
      have noFeed : c ≠ '\n' := by
        rintro rfl
        cases first
      have stays : Region.next .comment c = .comment := if_neg noFeed
      refine .cons nofun ?_
      rw [stays]
      exact ih others

theorem passes_atom {text : List Char} (continues : ∀ c ∈ text, continuesAtom c = true) :
    Passes .code text .code := by
  induction text with
  | nil => exact .nil _
  | cons c rest ih =>
      obtain ⟨first, others⟩ := List.forall_mem_cons.mp continues
      obtain ⟨-, noOpener, noCloser, noComment, -, -, noQuote⟩ := of_continuesAtom first
      have stays : Region.next .code c = .code := by
        rw [Region.next, if_neg noQuote, if_neg noComment]
      refine .cons (fun _ => ⟨noOpener, noCloser⟩) ?_
      rw [stays]
      exact ih others

theorem passes_stringBody {body : List Char} (inside : StringBody body) :
    Passes (.string false) body (.string false) := by
  induction inside with
  | nil => exact .nil _
  | @plain c rest noQuote noBackslash _ ih =>
      have stays : Region.next (.string false) c = .string false := by
        rw [Region.next, afterStringChar, if_neg (by decide), if_neg noBackslash, if_neg noQuote]
      refine .cons nofun ?_
      rw [stays]
      exact ih
  | escaped _ _ ih => exact .cons nofun (.cons nofun ih)

theorem passes_mark (marker : Marker) : Passes .code marker.text.toList .code := by
  cases marker with
  | quote | quasiquote | unquote => exact .single fun _ => ⟨rfl, rfl⟩
  | splice => exact .cons (fun _ => ⟨rfl, rfl⟩) (.single fun _ => ⟨rfl, rfl⟩)

theorem passes_openString {body : List Char} (inside : StringBody body) :
    Passes .code ('"' :: body) (.string false) :=
  .cons (fun _ => ⟨rfl, rfl⟩) (passes_stringBody inside)

theorem passes_string {body : List Char} (inside : StringBody body) :
    Passes .code ('"' :: (body ++ ['"'])) .code :=
  (passes_openString inside).append (.single nofun)

/-! ## Tokens -/

/-- Judges the tokens of an entry, with the brackets in `opened` still open, the innermost first.
A string without its closing quote leaves the entry incomplete. -/
def judgeTokens : (opened : List Bracket) → List Token → Verdict
  | opened, [] => if opened.isEmpty then .valid else .incomplete
  | opened, token :: rest =>
    match token.kind with
    | .opening b => judgeTokens (b :: opened) rest
    | .closing b =>
      match opened with
      | [] => .invalid b.closer token.span.start
      | top :: outer =>
        if top = b then judgeTokens outer rest else .invalid b.closer token.span.start
    | .string text => if (Text.unquote? text).isSome then judgeTokens opened rest else .incomplete
    | .mark _ | .atom _ => judgeTokens opened rest

theorem judgeTokens_opening {token : Token} {bracket : Bracket}
    (opens : token.kind = .opening bracket) (opened : List Bracket) (rest : List Token) :
    judgeTokens opened (token :: rest) = judgeTokens (bracket :: opened) rest := by
  rw [judgeTokens, opens]

theorem judgeTokens_closing {token : Token} {bracket : Bracket}
    (closes : token.kind = .closing bracket) (opened : List Bracket) (rest : List Token) :
    judgeTokens opened (token :: rest) =
      match opened with
      | [] => .invalid bracket.closer token.span.start
      | top :: outer =>
        if top = bracket then judgeTokens outer rest
        else .invalid bracket.closer token.span.start := by
  rw [judgeTokens, closes]

/-- A text in which characters and tokens can be judged alike. -/
structure Comparable (text : List Char) : Prop where
  comments : CommentsEndLines .code text
  strings : StringsKeepLines .code text ∨ ∀ kind ∈ lexemes text, Accepted kind

theorem Comparable.rest {front rest : List Char} {ks : List TokenKind}
    (comparable : Comparable (front ++ rest)) (code : regionAfter .code front = .code)
    (tokens : lexemes (front ++ rest) = ks ++ lexemes rest) : Comparable rest := by
  constructor
  · have comments := comparable.comments.append
    rwa [code] at comments
  · refine comparable.strings.imp (fun strings => ?_) fun accepted kind present => ?_
    · have others := strings.append
      rwa [code] at others
    · rw [tokens] at accepted
      exact accepted kind (List.mem_append_right _ present)

/-- The characters and the tokens of a text are judged alike. -/
def JudgedAlike (text : List Char) : Prop :=
  ∀ opened position, judgeFrom .code opened position text =
    judgeTokens opened (tokensAt position text)

theorem judgedAlike_openString {body rest : List Char} (inside : StringBody body)
    (ends : splitString rest = ([], rest)) (comparable : Comparable ('"' :: body ++ rest)) :
    JudgedAlike ('"' :: body ++ rest) := by
  intro opened position
  have scanned := Scanned.openString inside ends
  have rejected := not_accepted_openString inside
  have tokens := tokensAt_scanned position scanned
  have kinds := lexemes_scanned scanned
  rw [TokenKind.text, String.toList_ofList] at tokens kinds
  have unclosed : judgeTokens opened (tokensAt position ('"' :: body ++ rest)) = .incomplete := by
    rw [tokens]
    exact if_neg rejected
  have passes := passes_openString inside
  rw [unclosed, passes.judgeFrom_append]
  rcases splitString_stops ends with rfl | rfl | ⟨more, rfl⟩
  · rfl
  · rfl
  · rcases comparable.strings with strings | accepted
    · have others := strings.append
      rw [passes.regionAfter_eq, stringsKeepLines_cons, stringsKeepLines_cons] at others
      exact absurd rfl (others.2.1 rfl)
    · rw [kinds] at accepted
      exact absurd (accepted _ List.mem_cons_self) rejected

theorem judgedAlike_passed {kind : TokenKind} {rest : List Char} (scanned : Scanned kind rest)
    (onward : regionAfter .code kind.text.toList = .code → JudgedAlike rest)
    (passes : Passes .code kind.text.toList .code)
    (skips : ∀ (opened : List Bracket) (position : Nat) (others : List Token),
      judgeTokens opened (kind.placedAt position :: others) = judgeTokens opened others) :
    JudgedAlike (kind.text.toList ++ rest) := by
  intro opened position
  rw [passes.judgeFrom_append, tokensAt_scanned position scanned, skips, byteLength_toList]
  exact onward passes.regionAfter_eq opened _

theorem judgedAlike_scanned {kind : TokenKind} {rest : List Char} (scanned : Scanned kind rest)
    (comparable : Comparable (kind.text.toList ++ rest)) (ih : Comparable rest → JudgedAlike rest) :
    JudgedAlike (kind.text.toList ++ rest) := by
  have onward : regionAfter .code kind.text.toList = .code → JudgedAlike rest := fun code =>
    ih (@Comparable.rest _ _ [kind] comparable code (lexemes_scanned scanned))
  cases scanned with
  | opening bracket =>
      intro opened position
      have alike := onward (by cases bracket <;> rfl)
      rw [tokensAt_scanned position (.opening bracket rest)]
      rw [judgeTokens_opening rfl]
      simp only [TokenKind.text, Char.toString_eq_singleton, String.toList_singleton,
        List.singleton_append, judgeFrom_opener, String.utf8ByteSize_singleton]
      exact alike (bracket :: opened) _
  | closing bracket =>
      intro opened position
      have alike := onward (by cases bracket <;> rfl)
      rw [tokensAt_scanned position (.closing bracket rest)]
      rw [judgeTokens_closing rfl]
      simp only [TokenKind.text, Char.toString_eq_singleton, String.toList_singleton,
        List.singleton_append, judgeFrom_closer, String.utf8ByteSize_singleton]
      cases opened with
      | nil => rfl
      | cons top outer => exact if_congr Iff.rfl (alike outer _) rfl
  | mark marker complete =>
      exact judgedAlike_passed (.mark marker complete) onward (passes_mark marker)
        fun _ _ _ => rfl
  | openString inside ends =>
      rw [TokenKind.text, String.toList_ofList] at comparable ⊢
      exact judgedAlike_openString inside ends comparable
  | string inside =>
      refine judgedAlike_passed (.string inside rest) onward ?_ fun _ _ _ => ?_
      · rw [TokenKind.text, String.toList_ofList]
        exact passes_string inside
      · exact if_pos (accepted_string inside)
  | atom starts continues ends =>
      refine judgedAlike_passed (.atom starts continues ends) onward ?_ fun _ _ _ => rfl
      rw [TokenKind.text, String.toList_ofList]
      exact passes_atom (continues_of_starts starts continues)

/-- After a comment the line feed begins a new line for the characters as it does for the
tokens. -/
theorem Comparable.nextLine {front more : List Char}
    (comparable : Comparable (front ++ '\n' :: more))
    (comment : regionAfter .code front = .comment)
    (tokens : lexemes (front ++ '\n' :: more) = lexemes ('\n' :: more)) :
    Comparable ('\n' :: more) := by
  constructor
  · have comments := comparable.comments.append
    rw [comment, commentsEndLines_cons] at comments
    exact commentsEndLines_cons.mpr ⟨nofun, comments.2⟩
  · refine comparable.strings.imp (fun strings => ?_) fun accepted => by rwa [tokens] at accepted
    have others := strings.append
    rw [comment, stringsKeepLines_cons] at others
    exact stringsKeepLines_cons.mpr ⟨nofun, others.2⟩

theorem judgedAlike_comment {text rest : List Char} {stop : Char}
    (inside : ∀ c ∈ text, endsComment c = false) (ends : endsComment stop = true)
    (comparable : Comparable (';' :: (text ++ stop :: rest)))
    (ih : Comparable rest → JudgedAlike rest) : JudgedAlike (';' :: (text ++ stop :: rest)) := by
  have start : Passes .code (';' :: text) .comment :=
    .cons (fun _ => ⟨rfl, rfl⟩) (passes_comment inside)
  have passes : Passes .code (';' :: text ++ [stop]) (Region.next .comment stop) :=
    start.append (.single nofun)
  have shape : ';' :: (text ++ stop :: rest) = ';' :: text ++ [stop] ++ rest := by simp
  have tokens := lexemes_comment inside ends rest
  suffices ∀ opened position, judgeFrom (Region.next .comment stop) opened position rest =
      judgeTokens opened (tokensAt position rest) by
    intro opened position
    rw [tokensAt_comment position inside ends, shape, passes.judgeFrom_append, this,
      List.cons_append]
  rw [shape] at comparable tokens
  rcases (by simpa [endsComment] using ends : stop = '\n' ∨ stop = '\r') with rfl | rfl
  · exact ih (@Comparable.rest _ _ [] comparable passes.regionAfter_eq tokens)
  · -- For the characters the comment goes on to the end of its line, which is right here.
    have comments := comparable.comments
    rw [List.append_assoc] at comments
    have others := comments.append
    rw [start.regionAfter_eq] at others
    rcases (commentsEndLines_cons.mp others).1 rfl rfl with rfl | next
    · exact fun _ _ => rfl
    · obtain ⟨more, rfl⟩ := List.head?_eq_some_iff.mp next
      have alike := ih (comparable.nextLine passes.regionAfter_eq tokens)
      intro opened position
      have here := @judgeFrom_next .comment '\n' nofun opened position more
      have there := @judgeFrom_next .code '\n' (fun _ => ⟨rfl, rfl⟩) opened position more
      exact (here.trans there.symm).trans (alike opened position)

/-- Where the two ways of finding comments and strings agree, the characters and the tokens of a
text are judged alike. -/
theorem judgedAlike {text : List Char} (comparable : Comparable text) : JudgedAlike text := by
  induction text using text_induction with
  | nil => exact fun _ _ => rfl
  | separator c rest separates ih =>
      intro opened position
      have passes := passes_separator separates
      have others : Comparable rest :=
        @Comparable.rest [c] rest [] comparable passes.regionAfter_eq
          (lexemes_separator separates rest)
      have judged := passes.judgeFrom_append opened position rest
      rw [List.singleton_append] at judged
      rw [judged, tokensAt_separator position separates]
      exact ih others opened _
  | lastComment text inside =>
      intro opened position
      have passes : Passes .code (';' :: text) .comment :=
        .cons (fun _ => ⟨rfl, rfl⟩) (passes_comment inside)
      have judged := passes.judgeFrom_append opened position []
      rw [List.append_nil] at judged
      rw [judged, tokensAt_lastComment position inside]
      rfl
  | comment text stop rest inside ends ih => exact judgedAlike_comment inside ends comparable ih
  | token c rest notSeparator notComment ih =>
      have scanned := scanned_scanToken notSeparator notComment rest
      rw [← scanToken_append c rest] at comparable ⊢
      exact judgedAlike_scanned scanned comparable ih

end Lisp.Repl
