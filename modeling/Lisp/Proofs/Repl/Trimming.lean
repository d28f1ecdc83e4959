import Lisp.Proofs.Program
import Lisp.Proofs.Repl.Balance
import Lisp.Proofs.Token.Blank
import Mathlib.Data.List.DropRight

/-! What it changes to trim an entry: nothing but the places of tokens and errors, unless a token
reaches into the white space that is taken off. -/

set_option autoImplicit false

namespace Lisp

namespace Text

/-- The white space at the start of a text. -/
def blankStart (cs : List Char) : List Char :=
  cs.takeWhile isBlank

/-- The white space at the end of a text, if not all of the text is white space. -/
def blankEnd (cs : List Char) : List Char :=
  (cs.dropWhile isBlank).rtakeWhile isBlank

theorem trim_divides (cs : List Char) : blankStart cs ++ (trim cs ++ blankEnd cs) = cs := by
  have inner : trim cs ++ blankEnd cs = cs.dropWhile isBlank :=
    List.rdropWhile_append_rtakeWhile
  rw [inner, blankStart, List.takeWhile_append_dropWhile]

theorem isBlank_blankStart (cs : List Char) : ∀ c ∈ blankStart cs, isBlank c = true :=
  fun _ mem => List.mem_takeWhile_imp mem

theorem isBlank_blankEnd (cs : List Char) : ∀ c ∈ blankEnd cs, isBlank c = true :=
  fun _ mem => List.mem_rtakeWhile_imp mem

end Text

end Lisp

namespace Lisp.Repl

/-- Without the white space at its ends an entry has the same tokens just when none of them reaches into
that white space. Then they only stand at other places: evaluating the entry does the same, and gives
the same value, or the same error at its place in the entry. An entry that is judged to be whole keeps
its tokens if nothing but separators is trimmed and its comments and strings keep to their lines. -/
theorem tokenize_trim (line : List Char) :
    (kinds (tokenize (.ofList (Text.trim line))) = kinds (tokenize (.ofList line)) ↔
      ∀ token ∈ tokenize (.ofList line), byteLength (Text.blankStart line) ≤ token.span.start ∧
        token.span.stop ≤ byteLength (Text.blankStart line ++ Text.trim line)) ∧
    (kinds (tokenize (.ofList (Text.trim line))) = kinds (tokenize (.ofList line)) →
      tokenize (.ofList line) = (tokenize (.ofList (Text.trim line))).map
        (Token.mapSpan (.shift (byteLength (Text.blankStart line)))) ∧
      ∀ fuel frame store, runText fuel (.ofList line) frame store =
        (runText fuel (.ofList (Text.trim line)) frame store).map (Prod.map
          (Except.mapError (.mapSpan (.shift (byteLength (Text.blankStart line))))) id)) ∧
    (judge line = .valid → CommentsEndLines .code line → StringsKeepLines .code line →
      (∀ c ∈ Text.blankStart line ++ Text.blankEnd line, isSeparator c = true) →
      kinds (tokenize (.ofList (Text.trim line))) = kinds (tokenize (.ofList line))) := by
  have blankFront := Text.isBlank_blankStart line
  have blankBack := Text.isBlank_blankEnd line
  have kept := lexemes_between_iff blankFront blankBack (Text.trim line)
  have between := tokensAt_between blankFront blankBack (Text.trim line)
  rw [Text.trim_divides] at kept between
  simp only [tokenize_ofList, kinds_tokensAt]
  refine ⟨kept, fun same => ?_, fun valid comments strings separate => ?_⟩
  · have moved := between.resolve_right fun outside => outside.1 same
    have shifted := tokensAt_shift 0 (byteLength (Text.blankStart line)) (Text.trim line)
    rw [Nat.zero_add] at shifted
    have tokens := moved.trans shifted
    refine ⟨tokens, fun fuel _ _ => runText_mapSpan (Span.shift_merge _) ?_ fuel⟩
    rw [tokenize_ofList, tokenize_ofList, tokens]
  · obtain ⟨separateFront, separateBack⟩ := List.forall_mem_append.mp separate
    rw [← String.toList_ofList (l := line)] at comments strings valid
    have accepted := (((judge_reader comments).2 strings).1.mp valid).2
    rw [tokenize_ofList, ← Text.trim_divides line] at accepted
    have bounds := bounds_of_separators (fun token mem => accepted _ (List.mem_map_of_mem mem))
      separateFront separateBack
    rw [Text.trim_divides] at bounds
    exact kept.mpr bounds

/-- A tab and a space, a hash without a value, and a comment with a space before its end. -/
private def commentedLine : List Char :=
  "\t \x7ba\x7d ;b \n".toList

theorem tokenize_trim_commented :
    judge commentedLine = .valid ∧ CommentsEndLines .code commentedLine ∧
      StringsKeepLines .code commentedLine ∧
      kinds (tokenize (.ofList (Text.trim commentedLine))) =
        [.opening .curly, .atom "a", .closing .curly] ∧
      runText 9 (.ofList (Text.trim commentedLine)) 0 .empty =
        some (.error (.invalidHash ⟨0, 3⟩ .oddCount), .empty) ∧
      runText 9 (.ofList commentedLine) 0 .empty =
        some (.error (.invalidHash ⟨2, 5⟩ .oddCount), .empty) := by
  have comments : CommentsEndLines .code commentedLine := by decide
  have strings : StringsKeepLines .code commentedLine := by decide
  have separate : ∀ c ∈ Text.blankStart commentedLine ++ Text.blankEnd commentedLine,
      isSeparator c = true := List.all_eq_true.mp rfl
  have result : runText 9 (.ofList (Text.trim commentedLine)) 0 .empty =
      some (.error (.invalidHash ⟨0, 3⟩ .oddCount), .empty) := rfl
  obtain ⟨-, moved, kept⟩ := tokenize_trim commentedLine
  have same := kept rfl comments strings separate
  refine ⟨rfl, comments, strings, rfl, result, ?_⟩
  rw [(moved same).2, result]
  rfl

/-- A no-break space and a vertical tab belong to the atom beside them, but are trimmed. -/
theorem not_tokenize_trim :
    (judge "'x\u00a0".toList = .valid ∧
      kinds (tokenize (.ofList (Text.trim "'x\u00a0".toList))) ≠ kinds (tokenize "'x\u00a0") ∧
      runText 9 "'x\u00a0" 0 .empty = some (.ok (.symbol "x\u00a0"), .empty) ∧
      runText 9 (.ofList (Text.trim "'x\u00a0".toList)) 0 .empty =
        some (.ok (.symbol "x"), .empty)) ∧
    judge "\x0b1".toList = .valid ∧
      kinds (tokenize (.ofList (Text.trim "\x0b1".toList))) ≠ kinds (tokenize "\x0b1") :=
  ⟨⟨rfl, by decide, rfl, rfl⟩, rfl, by decide⟩

end Lisp.Repl
