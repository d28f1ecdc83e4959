import Lisp.Proofs.Reader.Grammar
import Lisp.Proofs.Token.Division

/-! Where one token of a text ends and the next begins does not depend on what stands before it. -/

set_option autoImplicit false

namespace Lisp

def lexemes (cs : List Char) : List TokenKind :=
  kinds (tokensFrom cs.length 0 cs)

theorem kinds_tokenize (source : String) : kinds (tokenize source) = lexemes source.toList :=
  rfl

theorem kinds_mapSpan (move : Span → Span) (tokens : List Token) :
    kinds (tokens.map (Token.mapSpan move)) = kinds tokens := by
  rw [kinds, List.map_map]
  rfl

theorem kinds_tokensAt (offset : Nat) (cs : List Char) :
    kinds (tokensAt offset cs) = lexemes cs := by
  rw [← Nat.zero_add offset, tokensAt_shift, kinds_mapSpan]
  rfl

/-! ## The first token -/

theorem lexemes_separator {c : Char} (separator : isSeparator c = true) (rest : List Char) :
    lexemes (c :: rest) = lexemes rest := by
  rw [← kinds_tokensAt 0, tokensAt_separator 0 separator, kinds_tokensAt]

theorem lexemes_comment {text : List Char} {stop : Char}
    (inside : ∀ c ∈ text, endsComment c = false) (ends : endsComment stop = true)
    (rest : List Char) :
    lexemes (';' :: (text ++ stop :: rest)) = lexemes rest := by
  rw [← kinds_tokensAt 0, tokensAt_comment 0 inside ends, kinds_tokensAt]

theorem lexemes_filler {filler : List Char} (fills : Filler filler) (rest : List Char) :
    lexemes (filler ++ rest) = lexemes rest := by
  rw [← kinds_tokensAt 0, tokensAt_filler 0 fills, kinds_tokensAt]

theorem lexemes_lastFiller {last : List Char} (trailing : LastFiller last) : lexemes last = [] := by
  rw [← kinds_tokensAt 0, tokensAt_lastFiller 0 trailing]
  rfl

theorem lexemes_scanned {kind : TokenKind} {rest : List Char} (scanned : Scanned kind rest) :
    lexemes (kind.text.toList ++ rest) = kind :: lexemes rest := by
  rw [← kinds_tokensAt 0, tokensAt_scanned 0 scanned, kinds, List.map_cons, ← kinds, kinds_tokensAt]
  rfl

theorem lexemes_opener (bracket : Bracket) (rest : List Char) :
    lexemes (bracket.opener :: rest) = .opening bracket :: lexemes rest := by
  have scanned := lexemes_scanned (.opening bracket rest)
  simpa [TokenKind.text] using scanned

theorem lexemes_closer (bracket : Bracket) (rest : List Char) :
    lexemes (bracket.closer :: rest) = .closing bracket :: lexemes rest := by
  have scanned := lexemes_scanned (.closing bracket rest)
  simpa [TokenKind.text] using scanned

/-- An atom before a text that does not continue it is a token of its own. -/
theorem lexemes_atom {c : Char} {cs rest : List Char} (starts : startsAtom c = true)
    (continues : ∀ other ∈ cs, continuesAtom other = true) (delimited : Delimited rest) :
    lexemes (c :: cs ++ rest) = .atom (.ofList (c :: cs)) :: lexemes rest := by
  have scanned := lexemes_scanned (.atom starts continues delimited)
  rwa [TokenKind.text, String.toList_ofList] at scanned

private theorem stringBody_escape (c : Char) {tail : List Char} (inside : StringBody tail) :
    StringBody (Text.escape c ++ tail) := by
  rw [Text.escape]
  split_ifs with quote backslash feed carriage tab
  · exact .escaped (by decide) inside
  · exact .escaped (by decide) inside
  · exact .escaped (by decide) inside
  · exact .escaped (by decide) inside
  · exact .escaped (by decide) inside
  · exact .plain quote backslash inside

theorem stringBody_quoted (cs : List Char) : StringBody (cs.flatMap Text.escape) := by
  induction cs with
  | nil => exact .nil
  | cons c cs ih => exact stringBody_escape c ih

theorem lexemes_quote (s : String) (rest : List Char) :
    lexemes ((Text.quote s).toList ++ rest) = .string (Text.quote s) :: lexemes rest := by
  have scanned := lexemes_scanned (.string (stringBody_quoted s.toList) rest)
  rwa [TokenKind.text, ← List.cons_append, ← Text.quote] at scanned

/-! ## Tokens of a text -/

theorem scanned_of_mem {cs : List Char} {kind : TokenKind} (present : kind ∈ lexemes cs) :
    ∃ rest, Scanned kind rest := by
  obtain ⟨token, mem, rfl⟩ := List.mem_map.mp present
  obtain ⟨-, rest, -, -, scanned⟩ := (divided_tokensAt 0 cs).scanned_of_mem mem
  exact ⟨rest, scanned⟩

theorem lexemes_of_atom_mem {cs : List Char} {text : String} (present : .atom text ∈ lexemes cs) :
    lexemes text.toList = [.atom text] := by
  obtain ⟨rest, scanned⟩ := scanned_of_mem present
  cases scanned with
  | atom starts continues _ =>
      have alone : lexemes (_ :: _ ++ []) = _ := lexemes_atom starts continues nofun
      rw [List.append_nil] at alone
      rw [String.toList_ofList, alone]
      rfl

/-- A text that is one atom by itself starts and goes on like one. -/
theorem atom_of_lexemes {cs : List Char} (single : lexemes cs = [.atom (.ofList cs)]) :
    ∃ c rest, cs = c :: rest ∧ startsAtom c = true ∧
      ∀ other ∈ rest, continuesAtom other = true := by
  obtain ⟨after, scanned⟩ := scanned_of_mem (single ▸ List.mem_singleton_self _)
  generalize text : String.ofList cs = s at scanned
  cases scanned with
  | @atom c rest _ starts continues _ =>
      exact ⟨c, rest, String.ofList_inj.mp text, starts, continues⟩

end Lisp
