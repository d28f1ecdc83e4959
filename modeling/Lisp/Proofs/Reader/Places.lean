import Lisp.Proofs.Reader.Acceptance
import Lisp.Proofs.Token.Lexemes

/-! The places of tokens reach nothing but the places of errors: what is read from tokens in other
places is the same, and so are the errors, in those other places. -/

set_option autoImplicit false

namespace Lisp

/-- The same error in another place. -/
def ParseError.mapSpan (move : Span → Span) : ParseError → ParseError
  | unexpectedToken found expected => .unexpectedToken (found.mapSpan move) expected
  | unexpectedEnd expected => .unexpectedEnd expected
  | unterminatedString span => .unterminatedString (move span)
  | invalidHash span fault => .invalidHash (move span) fault

namespace OpenForm

def mapSpan (move : Span → Span) : OpenForm → OpenForm
  | sequence bracket start items => .sequence bracket (move start) items
  | marked marker => .marked marker

theorem awaited_mapSpan (move : Span → Span) (construct : OpenForm) :
    (construct.mapSpan move).awaited = construct.awaited := by
  cases construct <;> rfl

end OpenForm

def ReadState.mapSpan (move : Span → Span) : ReadState → ReadState
  | complete form => .complete form
  | waiting opened => .waiting (opened.map (OpenForm.mapSpan move))

theorem attach_mapSpan (move : Span → Span) (form : Value) (opened : OpenForms) :
    attach form (opened.map (OpenForm.mapSpan move)) = (attach form opened).mapSpan move := by
  induction opened generalizing form with
  | nil => rfl
  | cons construct outer ih =>
      cases construct with
      | sequence bracket start items => rfl
      | marked marker => exact ih _

theorem closeSequence_mapSpan (move : Span → Span) (bracket : Bracket) (span : Span)
    (items : List Value) :
    closeSequence bracket (move span) items =
      (closeSequence bracket span items).mapError (.mapSpan move) := by
  cases bracket with
  | round | square => rfl
  | curly =>
      rw [closeSequence, closeSequence]
      cases hashLiteral items <;> rfl

section

variable {move : Span → Span} (merges : ∀ a b : Span, move (a.merge b) = (move a).merge (move b))
include merges

theorem readCloser_mapSpan (bracket : Bracket) (token : Token) (opened : OpenForms) :
    readCloser bracket (token.mapSpan move) (opened.map (OpenForm.mapSpan move)) =
      ((readCloser bracket token opened).map (.mapSpan move)).mapError (.mapSpan move) := by
  rcases opened with _ | ⟨⟨other, start, items⟩ | marker, outer⟩
  · rfl
  · rw [List.map_cons, OpenForm.mapSpan, readCloser, readCloser]
    split_ifs with same
    · have closes := closeSequence_mapSpan move bracket (start.merge token.span) items.reverse
      rw [merges] at closes
      rw [Token.mapSpan, closes]
      cases closeSequence bracket (start.merge token.span) items.reverse with
      | error e => rfl
      | ok value => exact congrArg Except.ok (attach_mapSpan move value outer)
    · rfl
  · rfl

theorem readToken_mapSpan (token : Token) (opened : OpenForms) :
    readToken (token.mapSpan move) (opened.map (OpenForm.mapSpan move)) =
      ((readToken token opened).map (.mapSpan move)).mapError (.mapSpan move) := by
  have sameKind : (token.mapSpan move).kind = token.kind := rfl
  rw [readToken, readToken, sameKind]
  cases token.kind with
  | opening bracket | mark marker => rfl
  | closing bracket => exact readCloser_mapSpan merges bracket token opened
  | atom text => exact congrArg Except.ok (attach_mapSpan move (.ofAtom text) opened)
  | string text =>
      dsimp only
      cases Text.unquote? text with
      | none => rfl
      | some s => exact congrArg Except.ok (attach_mapSpan move (.string s) opened)

theorem readWith_mapSpan (opened : OpenForms) (tokens : List Token) :
    readWith (opened.map (OpenForm.mapSpan move)) (tokens.map (Token.mapSpan move)) =
      ((readWith opened tokens).1.mapError (.mapSpan move),
        (readWith opened tokens).2.map (Token.mapSpan move)) := by
  induction tokens generalizing opened with
  | nil =>
      cases opened with
      | nil => rfl
      | cons construct outer =>
          rw [List.map_cons, List.map_nil, readWith, readWith, OpenForm.awaited_mapSpan]
          rfl
  | cons token rest ih =>
      rw [List.map_cons, readWith_cons, readWith_cons, readToken_mapSpan merges]
      rcases readToken token opened with e | (form | opened')
      · rfl
      · rfl
      · exact ih opened'

theorem readForms_mapSpan (rounds : Nat) (tokens : List Token) :
    readForms rounds (tokens.map (Token.mapSpan move)) =
      ((readForms rounds tokens).1, (readForms rounds tokens).2.map (.mapSpan move)) := by
  induction rounds generalizing tokens with
  | zero => rfl
  | succ rounds ih =>
      have first := readWith_mapSpan merges [] tokens
      rw [List.map_nil, ← readOne, ← readOne] at first
      rw [readForms, readForms, first]
      rcases readOne tokens with ⟨e | (_ | form), rest⟩
      · rfl
      · rfl
      · have others := ih rest
        simp only [Except.mapError, others]

theorem Script.ofText_mapSpan {source moved : String}
    (tokens : tokenize moved = (tokenize source).map (Token.mapSpan move)) :
    Script.ofText moved =
      ⟨(Script.ofText source).forms, (Script.ofText source).failure.map (.mapSpan move)⟩ := by
  rw [Script.ofText, tokens, readForms_mapSpan merges, List.length_map]
  rfl

end

end Lisp
