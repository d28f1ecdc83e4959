import Lisp.Proofs.Token.Lexemes

/-! What string tokens denote. The lexer looks for the closing quote from the left, piece by piece, and
the reader from the right, by the backslashes in front of it. They agree on every token of a text. -/

set_option autoImplicit false

namespace Lisp

namespace Text

/-! ## Pieces -/

/-- What the text between quotes consists of: characters for themselves, and backslashes each with the
character after it. -/
inductive Piece where
  | plain (c : Char) (noQuote : c ≠ '"') (noBackslash : c ≠ '\\')
  | pair (c : Char)

namespace Piece

def text : Piece → List Char
  | plain c _ _ => [c]
  | pair c => ['\\', c]

/-- Five pairs stand for one character each, and every other piece for its own text. -/
def meaning : Piece → List Char
  | plain c _ _ => [c]
  | pair '"' => ['"']
  | pair '\\' => ['\\']
  | pair 'n' => ['\n']
  | pair 't' => ['\t']
  | pair 'r' => ['\r']
  | pair c => ['\\', c]

theorem meaning_pair (c : Char) : (pair c).meaning = unescapePair c := by
  by_cases known : c = '"' ∨ c = '\\' ∨ c = 'n' ∨ c = 't' ∨ c = 'r'
  · rcases known with rfl | rfl | rfl | rfl | rfl <;> rfl
  · obtain ⟨quote, backslash, feed, tab, carriage⟩ := by simpa only [not_or] using known
    rw [unescapePair, if_neg quote, if_neg backslash, if_neg feed, if_neg tab, if_neg carriage,
      meaning.eq_7 c quote backslash feed tab carriage]

end Piece

/-- Whether a scan piece by piece meets a quote that belongs to no pair. -/
def meetsQuote : List Char → Bool
  | [] => false
  | '"' :: _ => true
  | '\\' :: _ :: rest => meetsQuote rest
  | _ :: rest => meetsQuote rest

theorem meetsQuote_pieces (pieces : List Piece) (rest : List Char) :
    meetsQuote (pieces.flatMap Piece.text ++ rest) = meetsQuote rest := by
  induction pieces with
  | nil => rfl
  | cons piece pieces ih =>
      rw [List.flatMap_cons, List.append_assoc]
      generalize pieces.flatMap Piece.text ++ rest = others at ih
      cases piece with
      | pair c => exact ih
      | plain c noQuote noBackslash =>
          have skipped : meetsQuote (c :: others) = meetsQuote others :=
            meetsQuote.eq_4 c others noQuote fun next rest pair =>
              absurd pair noBackslash
          exact skipped.trans ih

theorem written_pieces (pieces : List Piece) :
    Written (pieces.flatMap Piece.text) (pieces.flatMap Piece.meaning) := by
  induction pieces with
  | nil => exact .nil
  | cons piece pieces ih =>
      rw [List.flatMap_cons, List.flatMap_cons]
      cases piece with
      | plain c _ noBackslash => exact .plain noBackslash ih
      | pair c =>
          rw [Piece.meaning_pair]
          exact .escaped c ih

/-! ## Decoding -/

/-- Decodes the text between quotes, with `alone` for a backslash that no character follows. -/
def unescapeOr (alone : List Char) : List Char → List Char
  | [] => []
  | ['\\'] => alone
  | '\\' :: c :: rest => unescapePair c ++ unescapeOr alone rest
  | c :: rest => c :: unescapeOr alone rest

theorem unescapeOr_backslash (cs : List Char) : unescapeOr ['\\'] cs = unescape cs := by
  fun_induction unescape cs with
  | case1 | case2 => rfl
  | case3 c rest ih => rw [unescapeOr, ih]
  | case4 c rest noEnd noPair ih => rw [unescapeOr.eq_4 _ c rest noEnd noPair, ih]

/-- In a text of whole pieces no backslash is left over. -/
theorem Written.unescapeOr_eq {written meaning : List Char} (derived : Written written meaning)
    (alone : List Char) : unescapeOr alone written = meaning := by
  induction derived with
  | nil => rfl
  | @plain c written _ plain _ ih =>
      have single : unescapeOr alone (c :: written) = c :: unescapeOr alone written :=
        unescapeOr.eq_4 alone c written (fun backslash => absurd backslash plain)
          fun _ _ backslash => absurd backslash plain
      rw [single, ih]
  | escaped c _ ih => rw [unescapeOr, ih]

end Text

/-! ## Tokens -/

theorem StringBody.exists_pieces {body : List Char} (inside : StringBody body) :
    ∃ pieces : List Text.Piece, body = pieces.flatMap Text.Piece.text := by
  induction inside with
  | nil => exact ⟨[], rfl⟩
  | plain noQuote noBackslash _ ih =>
      obtain ⟨pieces, rfl⟩ := ih
      exact ⟨.plain _ noQuote noBackslash :: pieces, rfl⟩
  | escaped _ _ ih =>
      obtain ⟨pieces, rfl⟩ := ih
      exact ⟨.pair _ :: pieces, rfl⟩

/-- A string token of a text consists of whole pieces after its opening quote, and has its closing
quote behind them just when the reader accepts it. -/
theorem stringToken_cases {source text : String} (present : .string text ∈ kinds (tokenize source)) :
    ∃ pieces : List Text.Piece,
      (text.toList = '"' :: pieces.flatMap Text.Piece.text ∧ Text.unquote? text = none) ∨
        (text.toList = '"' :: (pieces.flatMap Text.Piece.text ++ ['"']) ∧
          Text.unquote? text = some (.ofList (pieces.flatMap Text.Piece.meaning))) := by
  obtain ⟨rest, scanned⟩ := scanned_of_mem (kinds_tokenize source ▸ present)
  cases scanned with
  | @openString body _ inside _ =>
      obtain ⟨pieces, rfl⟩ := inside.exists_pieces
      have rejected := not_accepted_openString inside
      exact ⟨pieces, .inl ⟨String.toList_ofList, by simpa [Accepted] using rejected⟩⟩
  | @string body inside _ =>
      obtain ⟨pieces, rfl⟩ := inside.exists_pieces
      have shape := @String.toList_ofList ('"' :: (pieces.flatMap Text.Piece.text ++ ['"']))
      exact ⟨pieces, .inr ⟨shape, Text.unquote?_eq_some.mpr
        ⟨'"', _, _, shape, Text.written_pieces pieces, rfl⟩⟩⟩

/-- The reader finds a string token unterminated just when a scan of its pieces meets no quote outside
of pairs. Otherwise that quote is the last character, and the token denotes what the pieces before it
stand for. Decoding them never comes to a backslash that is alone, so it does not matter what that would
stand for. -/
theorem readToken_string {source text : String} {token : Token} (present : token ∈ tokenize source)
    (string : token.kind = .string text) (opened : OpenForms) :
    ∃ rest, text.toList = '"' :: rest ∧
      (readToken token opened = .error (.unterminatedString token.span) ↔
        Text.meetsQuote rest = false) ∧
      (Text.meetsQuote rest = true → ∃ pieces : List Text.Piece,
        rest = pieces.flatMap Text.Piece.text ++ ['"'] ∧
        readToken token opened =
          .ok (attach (.string (.ofList (pieces.flatMap Text.Piece.meaning))) opened) ∧
        ∀ alone, Text.unescapeOr alone (pieces.flatMap Text.Piece.text) =
          Text.unescape (pieces.flatMap Text.Piece.text)) := by
  have among : .string text ∈ kinds (tokenize source) := List.mem_map.mpr ⟨token, present, string⟩
  obtain ⟨pieces, ⟨shape, unterminated⟩ | ⟨shape, denoted⟩⟩ := stringToken_cases among
  · have unmet : Text.meetsQuote (pieces.flatMap Text.Piece.text) = false := by
      simpa [Text.meetsQuote] using Text.meetsQuote_pieces pieces []
    have fails : readToken token opened = .error (.unterminatedString token.span) := by
      rw [readToken, string]
      simp only [unterminated]
    exact ⟨_, shape, iff_of_true fails unmet, fun met => absurd (unmet.symm.trans met) Bool.false_ne_true⟩
  · have met : Text.meetsQuote (pieces.flatMap Text.Piece.text ++ ['"']) = true :=
      Text.meetsQuote_pieces pieces ['"']
    have reads : readToken token opened =
        .ok (attach (.string (.ofList (pieces.flatMap Text.Piece.meaning))) opened) := by
      rw [readToken, string]
      simp only [denoted]
    refine ⟨_, shape, iff_of_false ?_ (by simp [met]), fun _ => ⟨pieces, rfl, reads, fun alone => ?_⟩⟩
    · rw [reads]
      intro failed
      cases failed
    · have written := Text.written_pieces pieces
      rw [written.unescapeOr_eq, ← Text.unescapeOr_backslash, written.unescapeOr_eq]

/-- A closed string with a quote, a backslash and two letters in pairs, and an open one whose last
character is a quote in a pair. -/
private def escapedStrings : String :=
  "\"a\\\"\\\\\\q\\n\" \"b\\\""

theorem readToken_string_escaped :
    ∃ closed ∈ tokenize escapedStrings, ∃ unclosed ∈ tokenize escapedStrings,
      readToken closed [] = .ok (.complete (.string "a\"\\\\q\n")) ∧
      readToken unclosed [] = .error (.unterminatedString ⟨12, 16⟩) := by
  have closed : ⟨.string "\"a\\\"\\\\\\q\\n\"", ⟨0, 11⟩⟩ ∈ tokenize escapedStrings := by decide
  have unclosed : ⟨.string "\"b\\\"", ⟨12, 16⟩⟩ ∈ tokenize escapedStrings := by decide
  refine ⟨_, closed, _, unclosed, ?_, ?_⟩
  · obtain ⟨rest, shape, -, reads⟩ := readToken_string closed rfl []
    have characters : "\"a\\\"\\\\\\q\\n\"".toList =
        ['"', 'a', '\\', '"', '\\', '\\', '\\', 'q', '\\', 'n', '"'] := rfl
    obtain ⟨-, rfl⟩ := List.cons.inj (characters.symm.trans shape)
    obtain ⟨pieces, body, denoted, -⟩ := reads rfl
    have inside := congrArg List.dropLast body
    rw [List.dropLast_concat] at inside
    rw [denoted, ← (Text.written_pieces pieces).unescape_eq, ← inside]
    rfl
  · obtain ⟨rest, shape, fails, -⟩ := readToken_string unclosed rfl []
    obtain ⟨-, rfl⟩ := List.cons.inj shape
    exact fails.mpr rfl

end Lisp
