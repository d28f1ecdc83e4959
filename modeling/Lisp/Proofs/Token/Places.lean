import Lisp.Token.Lexer
import Mathlib.Data.List.TakeWhile

/-! The places of tokens. A text that stands further on has the same tokens further on, and what a
token is depends on the text from its own place onward. -/

set_option autoImplicit false

namespace Lisp

/-! ## Bytes -/

theorem byteLength_append (front back : List Char) :
    byteLength (front ++ back) = byteLength front + byteLength back := by
  induction front with
  | nil => rw [List.nil_append, byteLength, Nat.zero_add]
  | cons c front ih => rw [List.cons_append, byteLength, byteLength, ih, Nat.add_assoc]

theorem byteLength_ofList (cs : List Char) : (String.ofList cs).utf8ByteSize = byteLength cs := by
  induction cs with
  | nil => rfl
  | cons c cs ih =>
      rw [String.ofList_cons, String.utf8ByteSize_append, String.utf8ByteSize_singleton, ih,
        byteLength]

theorem byteLength_toList (s : String) : byteLength s.toList = s.utf8ByteSize := by
  rw [← byteLength_ofList, String.ofList_toList]

theorem byteLength_pos {cs : List Char} (nonempty : cs ≠ []) : 0 < byteLength cs := by
  cases cs with
  | nil => exact absurd rfl nonempty
  | cons c cs => exact Nat.add_pos_left c.utf8Size_pos _

/-- Texts that go on differently are divided at the same byte only after the same characters. -/
theorem append_inj_of_byteLength {front front' back back' : List Char}
    (same : front ++ back = front' ++ back') (place : byteLength front = byteLength front') :
    front = front' ∧ back = back' := by
  induction front generalizing front' with
  | nil =>
      cases front' with
      | nil => exact ⟨rfl, same⟩
      | cons c front' => exact absurd place (byteLength_pos (List.cons_ne_nil c front')).ne
  | cons c front ih =>
      cases front' with
      | nil => exact absurd place (byteLength_pos (List.cons_ne_nil c front)).ne'
      | cons c' front' =>
          obtain ⟨rfl, rest⟩ := List.cons.inj same
          obtain ⟨rfl, rfl⟩ := ih rest (Nat.add_left_cancel place)
          exact ⟨rfl, rfl⟩

/-! ## Moved spans -/

/-- The span in a text that stands `distance` bytes further on. -/
def Span.shift (distance : Nat) (s : Span) : Span :=
  ⟨s.start + distance, s.stop + distance⟩

def Token.mapSpan (move : Span → Span) (t : Token) : Token :=
  { t with span := move t.span }

/-! ## Scanning -/

theorem splitString_append (cs : List Char) : (splitString cs).1 ++ (splitString cs).2 = cs := by
  fun_induction splitString cs with
  | case1 | case2 | case3 | case4 => rfl
  | case5 c rest noFeed inside after split ih =>
      rw [split] at ih
      rw [List.cons_append, List.cons_append, ih]
  | case6 c rest noQuote noFeed noEnd noPair inside after split ih =>
      rw [split] at ih
      rw [List.cons_append, ih]

theorem Bracket.opener_of_ofOpener? {c : Char} {b : Bracket} (found : ofOpener? c = some b) :
    b.opener = c := by
  rw [ofOpener?] at found
  split_ifs at found with round square curly <;> cases found
  · exact round.symm
  · exact square.symm
  · exact curly.symm

theorem Bracket.closer_of_ofCloser? {c : Char} {b : Bracket} (found : ofCloser? c = some b) :
    b.closer = c := by
  rw [ofCloser?] at found
  split_ifs at found with round square curly <;> cases found
  · exact round.symm
  · exact square.symm
  · exact curly.symm

theorem Marker.toList_text (m : Marker) :
    m.text.toList = match m with
      | .quote => ['\x27']
      | .quasiquote => ['\x60']
      | .unquote => ['~']
      | .splice => ['~', '@'] := by
  cases m <;> rfl

theorem scanToken_divides (c : Char) (rest : List Char) :
    ∃ more, (scanToken c rest).1.text.toList = c :: more ∧ more ++ (scanToken c rest).2 = rest := by
  rw [scanToken.eq_def]
  split
  · next b opens => exact ⟨[], by simp [TokenKind.text, Bracket.opener_of_ofOpener? opens], rfl⟩
  · next b _ closes => exact ⟨[], by simp [TokenKind.text, Bracket.closer_of_ofCloser? closes], rfl⟩
  · split_ifs with quote quasi unquote string
    · exact ⟨[], by simp [TokenKind.text, Marker.toList_text, quote], rfl⟩
    · exact ⟨[], by simp [TokenKind.text, Marker.toList_text, quasi], rfl⟩
    · split
      · exact ⟨['@'], by simp [TokenKind.text, Marker.toList_text, unquote], rfl⟩
      · exact ⟨[], by simp [TokenKind.text, Marker.toList_text, unquote], rfl⟩
    · exact ⟨(splitString rest).1, by simp [TokenKind.text, string], splitString_append rest⟩
    · exact ⟨rest.takeWhile continuesAtom, by simp [TokenKind.text],
        List.takeWhile_append_dropWhile⟩

theorem scanToken_append (c : Char) (rest : List Char) :
    (scanToken c rest).1.text.toList ++ (scanToken c rest).2 = c :: rest := by
  obtain ⟨more, text, divided⟩ := scanToken_divides c rest
  rw [text, List.cons_append, divided]

theorem scanToken_length (c : Char) (rest : List Char) :
    (scanToken c rest).2.length ≤ rest.length := by
  obtain ⟨more, -, divided⟩ := scanToken_divides c rest
  have lengths := congrArg List.length divided
  rw [List.length_append] at lengths
  omega

/-! ## Tokens from a place on -/

def tokensAt (offset : Nat) (cs : List Char) : List Token :=
  tokensFrom cs.length offset cs

theorem tokenize_eq (source : String) : tokenize source = tokensAt 0 source.toList :=
  rfl

theorem tokenize_ofList (cs : List Char) : tokenize (.ofList cs) = tokensAt 0 cs := by
  rw [tokenize_eq, String.toList_ofList]

private theorem tokensFrom_nil (rounds offset : Nat) : tokensFrom rounds offset [] = [] := by
  cases rounds <;> rfl

/-- Rounds beyond those that suffice make no difference. -/
theorem tokensFrom_eq {rounds offset : Nat} {cs : List Char} (enough : cs.length ≤ rounds) :
    tokensFrom rounds offset cs = tokensAt offset cs := by
  have independent : ∀ (rounds rounds' offset : Nat) (cs : List Char), cs.length ≤ rounds →
      cs.length ≤ rounds' → tokensFrom rounds offset cs = tokensFrom rounds' offset cs := by
    intro rounds
    induction rounds with
    | zero =>
        intro rounds' offset cs enough _
        obtain rfl := List.length_eq_zero_iff.mp (Nat.le_zero.mp enough)
        rw [tokensFrom_nil, tokensFrom_nil]
    | succ rounds ih =>
        intro rounds' offset cs enough enough'
        cases cs with
        | nil => rw [tokensFrom_nil, tokensFrom_nil]
        | cons c rest =>
            cases rounds' with
            | zero => exact absurd enough' (Nat.not_succ_le_zero _)
            | succ rounds' =>
                rw [List.length_cons] at enough enough'
                rw [tokensFrom, tokensFrom]
                split_ifs
                · exact ih _ _ _ (by omega) (by omega)
                · have shorter := List.length_dropWhile_le (!endsComment ·) rest
                  exact ih _ _ _ (by omega) (by omega)
                · have shorter := scanToken_length c rest
                  exact congrArg (List.cons _)
                    (ih _ _ _ (shorter.trans (by omega)) (shorter.trans (by omega)))
  exact independent rounds cs.length offset cs enough (Nat.le_refl _)

theorem tokensAt_nil (offset : Nat) : tokensAt offset [] = [] :=
  rfl

theorem tokensAt_separator (offset : Nat) {c : Char} (separator : isSeparator c = true)
    (rest : List Char) : tokensAt offset (c :: rest) = tokensAt (offset + c.utf8Size) rest := by
  rw [tokensAt, List.length_cons, tokensFrom, if_pos separator, tokensFrom_eq (Nat.le_refl _)]

private theorem tokensAt_semicolon (offset : Nat) (rest : List Char) :
    tokensAt offset (';' :: rest) =
      tokensAt (offset + byteLength (';' :: rest.takeWhile (!endsComment ·)))
        (rest.dropWhile (!endsComment ·)) := by
  have shorter := List.length_dropWhile_le (!endsComment ·) rest
  rw [tokensAt, List.length_cons, tokensFrom, if_neg (by decide), if_pos rfl]
  exact tokensFrom_eq shorter

theorem tokensAt_lastComment (offset : Nat) {text : List Char}
    (inside : ∀ c ∈ text, endsComment c = false) : tokensAt offset (';' :: text) = [] := by
  have dropped : text.dropWhile (!endsComment ·) = [] :=
    List.dropWhile_eq_nil_iff.mpr fun c mem => by simp [inside c mem]
  rw [tokensAt_semicolon, dropped, tokensAt_nil]

theorem isSeparator_of_endsComment {c : Char} (ends : endsComment c = true) :
    isSeparator c = true := by
  rcases (by simpa [endsComment] using ends : c = '\n' ∨ c = '\r') with rfl | rfl <;> rfl

/-- A comment is passed over together with the character that ends it. -/
theorem tokensAt_comment (offset : Nat) {text : List Char} {stop : Char}
    (inside : ∀ c ∈ text, endsComment c = false) (ends : endsComment stop = true)
    (rest : List Char) :
    tokensAt offset (';' :: (text ++ stop :: rest)) =
      tokensAt (offset + byteLength (';' :: (text ++ [stop]))) rest := by
  have inside' : ∀ c ∈ text, (!endsComment c) = true := fun c mem => by simp [inside c mem]
  rw [tokensAt_semicolon, List.takeWhile_append_of_pos inside',
    List.dropWhile_append_of_pos inside', List.takeWhile_cons_of_neg (by simp [ends]),
    List.dropWhile_cons_of_neg (by simp [ends]),
    tokensAt_separator _ (isSeparator_of_endsComment ends)]
  simp only [byteLength, byteLength_append, List.append_nil, Nat.add_assoc, Nat.add_zero]

def TokenKind.placedAt (kind : TokenKind) (offset : Nat) : Token :=
  ⟨kind, ⟨offset, offset + kind.text.utf8ByteSize⟩⟩

theorem tokensAt_token (offset : Nat) {c : Char} (notSeparator : isSeparator c = false)
    (notComment : c ≠ ';') (rest : List Char) :
    tokensAt offset (c :: rest) = (scanToken c rest).1.placedAt offset ::
      tokensAt (offset + (scanToken c rest).1.text.utf8ByteSize) (scanToken c rest).2 := by
  rw [tokensAt, List.length_cons, tokensFrom, if_neg (by simp [notSeparator]), if_neg notComment]
  exact congrArg (List.cons _) (tokensFrom_eq (scanToken_length c rest))

/-- A comment goes on to the end of the text, or some character ends it. -/
theorem comment_cases (rest : List Char) :
    (∀ c ∈ rest, endsComment c = false) ∨ ∃ text stop more, rest = text ++ stop :: more ∧
      (∀ c ∈ text, endsComment c = false) ∧ endsComment stop = true := by
  induction rest with
  | nil => exact .inl nofun
  | cons c rest ih =>
      cases ends : endsComment c with
      | true => exact .inr ⟨[], c, rest, rfl, nofun, ends⟩
      | false =>
          rcases ih with inside | ⟨text, stop, more, rfl, inside, stops⟩
          · exact .inl (List.forall_mem_cons.mpr ⟨ends, inside⟩)
          · exact .inr ⟨c :: text, stop, more, rfl, List.forall_mem_cons.mpr ⟨ends, inside⟩, stops⟩

/-- Induction on a text as it is divided: by separators, comments up to the end of a line or of the
text, and tokens. -/
theorem text_induction {motive : List Char → Prop} (nil : motive [])
    (separator : ∀ c rest, isSeparator c = true → motive rest → motive (c :: rest))
    (lastComment : ∀ text : List Char, (∀ c ∈ text, endsComment c = false) → motive (';' :: text))
    (comment : ∀ (text : List Char) (stop : Char) (rest : List Char),
      (∀ c ∈ text, endsComment c = false) → endsComment stop = true → motive rest →
      motive (';' :: (text ++ stop :: rest)))
    (token : ∀ c rest, isSeparator c = false → c ≠ ';' → motive (scanToken c rest).2 →
      motive (c :: rest)) (cs : List Char) : motive cs := by
  induction length : cs.length using Nat.strongRecOn generalizing cs with
  | _ n ih =>
      subst length
      cases cs with
      | nil => exact nil
      | cons c rest =>
          by_cases separates : isSeparator c = true
          · exact separator c rest separates (ih rest.length (Nat.lt_succ_self _) rest rfl)
          · by_cases comments : c = ';'
            · subst comments
              rcases comment_cases rest with inside | ⟨text, stop, more, rfl, inside, ends⟩
              · exact lastComment rest inside
              · have shorter : more.length < (';' :: (text ++ stop :: more)).length := by
                  simp only [List.length_cons, List.length_append]
                  omega
                exact comment text stop more inside ends (ih more.length shorter more rfl)
            · have shorter := Nat.lt_succ_of_le (scanToken_length c rest)
              exact token c rest (Bool.eq_false_iff.mpr separates) comments (ih _ shorter _ rfl)

theorem tokensAt_shift (offset distance : Nat) (cs : List Char) :
    tokensAt (offset + distance) cs =
      (tokensAt offset cs).map (Token.mapSpan (.shift distance)) := by
  induction cs using text_induction generalizing offset with
  | nil => rfl
  | separator c rest separates ih =>
      rw [tokensAt_separator _ separates, tokensAt_separator _ separates, Nat.add_right_comm, ih]
  | lastComment text inside =>
      rw [tokensAt_lastComment _ inside, tokensAt_lastComment _ inside]
      rfl
  | comment text stop rest inside ends ih =>
      rw [tokensAt_comment _ inside ends, tokensAt_comment _ inside ends, Nat.add_right_comm, ih]
  | token c rest notSeparator notComment ih =>
      rw [tokensAt_token _ notSeparator notComment, tokensAt_token _ notSeparator notComment,
        Nat.add_right_comm, ih, List.map_cons]
      simp only [TokenKind.placedAt, Token.mapSpan, Span.shift, Nat.add_right_comm]

end Lisp
