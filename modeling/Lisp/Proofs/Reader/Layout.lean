import Lisp.Proofs.Reader.Places

/-! Layout does not change what is read. The texts of the tokens of a source may stand between any
separators and comments, as long as there are some between any two tokens. -/

set_option autoImplicit false

namespace Lisp

/-! ## Layouts -/

/-- What is written behind a token: further tokens, each behind a filler that is not empty, and the
last filler. -/
inductive Continuation : List TokenKind → List Char → Prop where
  | last {last : List Char} (trailing : LastFiller last) : Continuation [] last
  | next {filler rest : List Char} {kind : TokenKind} {ks : List TokenKind} (fills : Filler filler)
      (nonempty : filler ≠ []) (others : Continuation ks rest) :
      Continuation (kind :: ks) (filler ++ (kind.text.toList ++ rest))

/-- The texts of tokens in order, with fillers around them. -/
inductive Layout : List TokenKind → List Char → Prop where
  | blank {last : List Char} (trailing : LastFiller last) : Layout [] last
  | tokens {filler rest : List Char} {kind : TokenKind} {ks : List TokenKind}
      (fills : Filler filler) (others : Continuation ks rest) :
      Layout (kind :: ks) (filler ++ (kind.text.toList ++ rest))

theorem Continuation.delimited {ks : List TokenKind} {text : List Char}
    (continuation : Continuation ks text) : Delimited text := by
  cases continuation with
  | last trailing => exact trailing.delimited
  | next fills nonempty _ => exact fills.delimited nonempty _

/-- A token is scanned again wherever nothing can continue it. -/
def Rescanned (kind : TokenKind) : Prop :=
  ∀ rest, Delimited rest → Scanned kind rest

theorem Continuation.lexemes_eq {ks : List TokenKind} {text : List Char}
    (continuation : Continuation ks text) (rescanned : ∀ kind ∈ ks, Rescanned kind) :
    lexemes text = ks := by
  induction continuation with
  | last trailing => exact lexemes_lastFiller trailing
  | next fills _ others ih =>
      obtain ⟨first, rescannedOthers⟩ := List.forall_mem_cons.mp rescanned
      rw [lexemes_filler fills, lexemes_scanned (first _ others.delimited), ih rescannedOthers]

theorem Layout.lexemes_eq {ks : List TokenKind} {text : List Char} (layout : Layout ks text)
    (rescanned : ∀ kind ∈ ks, Rescanned kind) : lexemes text = ks := by
  cases layout with
  | blank trailing => exact lexemes_lastFiller trailing
  | tokens fills others =>
      obtain ⟨first, rescannedOthers⟩ := List.forall_mem_cons.mp rescanned
      rw [lexemes_filler fills, lexemes_scanned (first _ others.delimited),
        others.lexemes_eq rescannedOthers]

/-! ## Reading -/

def Span.forget (_ : Span) : Span :=
  .zero

/-- The error up to its place. -/
def ParseError.unplaced (e : ParseError) : ParseError :=
  e.mapSpan .forget

theorem map_forget (tokens : List Token) :
    tokens.map (Token.mapSpan .forget) = (kinds tokens).map fun kind => ⟨kind, .zero⟩ := by
  rw [kinds, List.map_map]
  rfl

def unlessFailed : List Value × Option ParseError → Except ParseError (List Value)
  | (forms, none) => .ok forms
  | (_, some e) => .error e

theorem readAll_eq (source : String) :
    readAll source = unlessFailed (readForms (tokenize source).length (tokenize source)) := by
  rw [readAll, Script.ofText]
  rcases readForms (tokenize source).length (tokenize source) with ⟨forms, _ | e⟩ <;> rfl

theorem mapError_unlessFailed (move : ParseError → ParseError)
    (result : List Value × Option ParseError) :
    (unlessFailed result).mapError move = unlessFailed (result.1, result.2.map move) := by
  rcases result with ⟨forms, _ | e⟩ <;> rfl

/-- What is read from tokens of the same kinds differs only in the places of errors. -/
theorem readAll_of_kinds {source text : String}
    (same : kinds (tokenize text) = kinds (tokenize source)) :
    (readAll text).mapError ParseError.unplaced =
      (readAll source).mapError ParseError.unplaced := by
  have merges : ∀ a b : Span, (a.merge b).forget = a.forget.merge b.forget := fun _ _ => rfl
  have sameLength : (tokenize text).length = (tokenize source).length := by
    simpa [kinds] using congrArg List.length same
  have read := readForms_mapSpan merges (tokenize source).length (tokenize text)
  rw [map_forget, same, ← map_forget, readForms_mapSpan merges] at read
  rw [readAll_eq, readAll_eq, mapError_unlessFailed, mapError_unlessFailed, sameLength]
  exact congrArg unlessFailed read.symm

/-- Any layout of the tokens of a source has the same tokens, and the same is read from it. -/
theorem readAll_layout {source text : String}
    (accepted : ∀ token ∈ tokenize source, Accepted token.kind)
    (layout : Layout (kinds (tokenize source)) text.toList) :
    kinds (tokenize text) = kinds (tokenize source) ∧
      (readAll text).mapError ParseError.unplaced =
        (readAll source).mapError ParseError.unplaced := by
  have same : kinds (tokenize text) = kinds (tokenize source) := by
    refine layout.lexemes_eq ?_
    intro kind present rest ends
    obtain ⟨rest', scanned⟩ := scanned_of_mem present
    obtain ⟨token, mem, rfl⟩ := List.mem_map.mp present
    exact scanned.before_delimited (accepted token mem) ends
  exact ⟨same, readAll_of_kinds same⟩

/-- A quoted symbol, a string with separators in it, and a bracket that is not open. -/
private def dense : String :=
  "'x\"; \")"

private def spread : String :=
  "\t';c\nx,\"; \"\r) ;d"

private theorem layout_spread : Layout (kinds (tokenize dense)) spread.toList := by
  have tab : Filler ['\t'] := .separator rfl .nil
  have comment : Filler [';', 'c', '\n'] :=
    @Filler.comment ['c'] [] '\n' (List.forall_mem_singleton.mpr rfl) rfl .nil
  have comma : Filler [','] := .separator rfl .nil
  have carriage : Filler ['\r'] := .separator rfl .nil
  have last : LastFiller [' ', ';', 'd'] :=
    @LastFiller.comment [' '] ['d'] (.separator rfl .nil) (List.forall_mem_singleton.mpr rfl)
  have closer : Continuation [.closing .round] _ := .next carriage (by decide) (.last last)
  have string : Continuation [.string "\"; \"", .closing .round] _ := .next comma (by decide) closer
  have atom : Continuation [.atom "x", .string "\"; \"", .closing .round] _ :=
    .next comment (by decide) string
  have whole : Layout [.mark .quote, .atom "x", .string "\"; \"", .closing .round] _ :=
    .tokens tab atom
  exact whole

theorem readAll_layout_spread :
    (∀ token ∈ tokenize dense, Accepted token.kind) ∧
      Layout (kinds (tokenize dense)) spread.toList ∧
      kinds (tokenize spread) = kinds (tokenize dense) ∧
      (readAll spread).mapError ParseError.unplaced =
        (readAll dense).mapError ParseError.unplaced := by
  have accepted : ∀ token ∈ tokenize dense, Accepted token.kind := by decide
  exact ⟨accepted, layout_spread, readAll_layout accepted layout_spread⟩

end Lisp
