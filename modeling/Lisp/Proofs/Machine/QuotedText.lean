import Lisp.Proofs.Machine.TailCalls
import Lisp.Proofs.Value.RoundTrip

/-! Data that is evaluated as text means the same as data that is evaluated as it stands. -/

set_option autoImplicit false

namespace Lisp

theorem Readable.isError_eq_false {v : Value} (readable : Readable v) : v.isError = false := by
  cases readable <;> rfl

theorem plainText_of_not_string {v : Value} (notString : ∀ s, v ≠ .string s) :
    v.plainText = v.render := by
  cases v with
  | string s => exact absurd rfl (notString s)
  | _ => rfl

/-- The text of quoted data is read back, and then evaluated in tail position in a new frame. -/
theorem TailCall.quotedText {v : Value} (readable : Readable v) (notString : ∀ s, v ≠ .string s)
    (room : Nat) (frame : FrameId) (store : Store) :
    TailCall (room + 1) ⟨Keyword.evalText.form [Keyword.quote.form [v]], frame, store⟩
      ⟨v.reread, (store.addChild frame []).1, (store.addChild frame []).2⟩ := by
  have read : readAll v.plainText = .ok [v.reread] := by
    rw [plainText_of_not_string notString]
    exact (readsAs_of_readable readable).readAll_eq
  have quoted := evaluates_quote v room frame store
  have plain := readable.isError_eq_false
  exact .computedText (.inl ⟨_, rfl⟩) quoted plain read (List.cons_ne_nil _ _) rfl

/-- Evaluating the text of quoted data has the outcomes of evaluating the data in a new frame. -/
theorem evaluateWithin_quotedText {v : Value} (readable : Readable v) (plain : NoShorthand v)
    (notString : ∀ s, v ≠ .string s) (room : Nat) (frame : FrameId) (store : Store)
    (outcome : Outcome) :
    (∃ fuel, evaluateWithin (room + 2) fuel (Keyword.evalText.form [Keyword.quote.form [v]]) frame
      store = some outcome) ↔
    ∃ fuel, evaluateWithin (room + 2) fuel v (store.addChild frame []).1
      (store.addChild frame []).2 = some outcome := by
  have call := TailCall.quotedText readable notString room frame store
  rw [readable.reread_eq plain] at call
  exact (call.reaches []).halts_iff

/-- A definition is made in the frame of the text. -/
private def definition : Value :=
  .list [.symbol "define", .symbol "y", .string "a \"b\"\n"]

private theorem readable_definition : Readable definition := by
  have define : Readable (.symbol "define") := .symbol rfl rfl
  have name : Readable (.symbol "y") := .symbol rfl rfl
  exact .list (List.forall_mem_cons.mpr ⟨define, List.forall_mem_cons.mpr ⟨name,
    List.forall_mem_singleton.mpr (.string _)⟩⟩)

private theorem noShorthand_definition : NoShorthand definition := by
  simp [definition, IsShorthand]

theorem evaluateWithin_quotedText_definition :
    Readable definition ∧ NoShorthand definition ∧ (∀ s, definition ≠ .string s) ∧
      ∃ fuel, evaluateWithin 2 fuel (Keyword.evalText.form [Keyword.quote.form [definition]]) 0
        ⟨#[⟨none, [], [], 0⟩], #[], #[]⟩ = some (.nil,
          ⟨#[⟨none, [], [], 0⟩, ⟨some 0, [("y", .string "a \"b\"\n")], [], 0⟩], #[], #[]⟩) :=
  ⟨readable_definition, noShorthand_definition, nofun,
    (evaluateWithin_quotedText readable_definition noShorthand_definition nofun 0 0 _ _).mpr
      ⟨8, rfl⟩⟩

end Lisp
