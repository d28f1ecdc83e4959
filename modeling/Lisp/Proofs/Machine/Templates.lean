import Lisp.Proofs.Machine.Waiting
import Lisp.Proofs.Value.Substitution

/-! A quasiquoted template is evaluated by substitution. The operands of its holes are evaluated in
order, and only a value that cannot be spliced in ends this early. -/

set_option autoImplicit false

namespace Lisp

section

variable {room : Nat} {frame : FrameId} {before after : Store} {template value : Value}

/-- The error for a value that is put in place of the items of a list and has none. -/
def spliceError : Value → EvalError
  | .error cause => cause
  | other => other.mismatch "splice-unquote" "list"

theorem resumeStep_hole_takes {hole : Hole} (takes : hole.Takes value) (c : Context)
    (template : Value) (done : List Value) (rest : List Hole) (frame : FrameId) :
    c.resumeStep (.hole template hole.kind done rest frame) value =
      c.fillNext template (value :: done) rest frame := by
  obtain ⟨_ | _, operand⟩ := hole
  · rfl
  · rcases takes rfl with ⟨items, rfl⟩ | rfl <;> rfl

theorem resumeStep_hole_refuses {hole : Hole} (refuses : ¬ hole.Takes value) (c : Context)
    (template : Value) (done : List Value) (rest : List Hole) (frame : FrameId) :
    c.resumeStep (.hole template hole.kind done rest frame) value =
      c.finish (.error (spliceError value)) := by
  obtain ⟨_ | _, operand⟩ := hole
  · exact absurd nofun refuses
  · cases value with
    | list items => exact absurd (fun _ => .inl ⟨items, rfl⟩) refuses
    | nil => exact absurd (fun _ => .inr rfl) refuses
    | _ => rfl

/-- The holes are filled in order, up to one whose value is not what it takes. -/
inductive SpliceFails (room : Nat) (frame : FrameId) :
    List Hole → Store → EvalError → Store → Prop where
  | here {hole : Hole} {value : Value} {before after : Store} (rest : List Hole)
      (evaluated : Evaluates room hole.operand frame before value after)
      (refuses : ¬ hole.Takes value) :
      SpliceFails room frame (hole :: rest) before (spliceError value) after
  | later {hole : Hole} {rest : List Hole} {value : Value} {cause : EvalError}
      {before middle after : Store}
      (evaluated : Evaluates room hole.operand frame before value middle)
      (takes : hole.Takes value) (fails : SpliceFails room frame rest middle cause after) :
      SpliceFails room frame (hole :: rest) before cause after

theorem fillNext_halts_iff {done : List Value} {holes : List Hole} :
    (Context.fillNext ⟨[], room, before⟩ template done holes frame).Halts (value, after) ↔
      (∃ values, EvaluatesAll room frame (holes.map Hole.operand) before values after ∧
        List.Forall₂ Hole.Takes holes values ∧
        value = (Template.fill template (done.reverse ++ values)).1) ∨
      ∃ cause, SpliceFails room frame holes before cause after ∧ value = .error cause := by
  induction holes generalizing done before with
  | nil =>
      rw [Context.fillNext, Context.finish, State.halts_finish, Prod.mk.injEq]
      constructor
      · rintro ⟨rfl, rfl⟩
        exact .inl ⟨[], .nil before, .nil, by rw [List.append_nil]⟩
      · rintro (⟨values, evaluated, -, rfl⟩ | ⟨cause, fails, -⟩)
        · cases evaluated
          rw [List.append_nil]
          exact ⟨rfl, rfl⟩
        · cases fails
  | cons hole rest ih =>
      have next : ∀ (first : Value) (values : List Value),
          (first :: done).reverse ++ values = done.reverse ++ first :: values := by simp
      rw [Context.fillNext, descend_halts_iff]
      constructor
      · rintro ⟨first, middle, evaluated, halts⟩
        by_cases takes : hole.Takes first
        · rw [resumeStep_hole_takes takes, ih] at halts
          rcases halts with ⟨values, others, taken, rfl⟩ | ⟨cause, fails, rfl⟩
          · rw [next]
            exact .inl ⟨first :: values, .cons evaluated others, .cons takes taken, rfl⟩
          · exact .inr ⟨cause, .later evaluated takes fails, rfl⟩
        · rw [resumeStep_hole_refuses takes, Context.finish, State.halts_finish] at halts
          cases halts
          exact .inr ⟨_, .here rest evaluated takes, rfl⟩
      · rintro (⟨_, evaluated, taken, rfl⟩ | ⟨cause, fails, rfl⟩)
        · cases evaluated with
          | @cons _ first _ values _ middle _ evaluated others =>
              cases taken with
              | cons takes taken =>
                  refine ⟨first, middle, evaluated, ?_⟩
                  rw [resumeStep_hole_takes takes, ih, ← next]
                  exact .inl ⟨values, others, taken, rfl⟩
        · cases fails with
          | @here _ found _ _ _ evaluated refuses =>
              refine ⟨found, after, evaluated, ?_⟩
              rw [resumeStep_hole_refuses refuses, Context.finish, State.halts_finish]
          | @later _ _ first _ _ middle _ evaluated takes fails =>
              refine ⟨first, middle, evaluated, ?_⟩
              rw [resumeStep_hole_takes takes, ih]
              exact .inr ⟨cause, fails, rfl⟩

theorem evaluates_quasiquote_iff :
    Evaluates (room + 1) (Keyword.quasiquote.form [template]) frame before value after ↔
      (∃ values,
        EvaluatesAll room frame ((Template.holes template).map Hole.operand) before values after ∧
        List.Forall₂ Hole.Takes (Template.holes template) values ∧
        value = (Template.fill template values).1) ∨
      ∃ cause, SpliceFails room frame (Template.holes template) before cause after ∧
        value = .error cause := by
  rw [evaluates_form_iff, Context.special, fillNext_halts_iff]
  rfl

end

/-- A quasiquoted template evaluates the operands of its holes in order, each once, and stands for
the template with their values in the holes. A value that is to be spliced in and is neither a list
nor nil ends this: there is an error, and no later operand is evaluated. For any values that can
fill the holes there is one result, and a template without holes stands for itself. -/
theorem quasiquote_substitutes (template : Value) (room : Nat) (frame : FrameId) (before : Store) :
    (∀ value after,
      Evaluates (room + 1) (Keyword.quasiquote.form [template]) frame before value after ↔
        (∃ filled, Template.Substituted template filled value ∧
          EvaluatesAll room frame (filled.map fun entry => entry.1.operand) before
            (filled.map Prod.snd) after) ∨
        ∃ cause, SpliceFails room frame (Template.holes template) before cause after ∧
          value = .error cause) ∧
    (∀ values, List.Forall₂ Hole.Takes (Template.holes template) values →
      ∃! result, Template.Substituted template ((Template.holes template).zip values) result) ∧
    (Template.holes template = [] →
      Evaluates (room + 1) (Keyword.quasiquote.form [template]) frame before template before) := by
  refine ⟨fun value after => ?_, fun values taken => Template.existsUnique_substituted taken,
    fun noHoles => ?_⟩
  · rw [evaluates_quasiquote_iff]
    refine or_congr_left ⟨?_, ?_⟩
    · rintro ⟨values, evaluated, taken, rfl⟩
      have substituted := Template.substituted_fill template taken
      refine ⟨_, substituted, ?_⟩
      rw [substituted.operands_eq, List.map_snd_zip (Nat.le_of_eq taken.length_eq.symm)]
      exact evaluated
    · rintro ⟨filled, substituted, evaluated⟩
      rw [substituted.operands_eq] at evaluated
      exact ⟨_, evaluated, substituted.forall₂_takes, substituted.eq_fill⟩
  · have taken : List.Forall₂ Hole.Takes (Template.holes template) [] := by
      rw [noHoles]
      exact .nil
    have substituted := Template.substituted_fill template taken
    rw [List.zip_nil_right] at substituted
    refine evaluates_quasiquote_iff.mpr (.inl ⟨[], ?_, taken, substituted.eq_self.symm⟩)
    rw [noHoles]
    exact .nil before

private def truthStore : Store :=
  ⟨#[⟨none, [("x", .bool true)], [], 0⟩], #[], #[]⟩

/-- What stands after the hole. -/
private def laterDefinition : Value :=
  Keyword.define.form [.symbol "z", .nil]

/-- The value of `x` cannot be spliced in, so `z` is not defined. At the root there is no list to
splice anything into. -/
theorem quasiquote_substitutes_misplaced :
    Evaluates 2 (Keyword.quasiquote.form [.list [
        .list [.symbol "splice-unquote", .symbol "x"], .list [.symbol "unquote", laterDefinition]]])
        0 truthStore (.error ((Value.bool true).mismatch "splice-unquote" "list")) truthStore ∧
      Evaluates 2 (Keyword.quasiquote.form [.list [.symbol "splice-unquote", laterDefinition]]) 0
        truthStore (.list [.symbol "splice-unquote", laterDefinition]) truthStore := by
  have found : Evaluates 1 (.symbol "x") 0 truthStore (.bool true) truthStore := ⟨2, rfl⟩
  have refuses : ¬ Hole.Takes ⟨.splice, .symbol "x"⟩ (.bool true) := by simp [Hole.Takes]
  have fails := SpliceFails.here [⟨.value, laterDefinition⟩] found refuses
  exact ⟨((quasiquote_substitutes _ 1 0 truthStore).1 _ _).mpr (.inr ⟨_, fails, rfl⟩),
    (quasiquote_substitutes _ 1 0 truthStore).2.2 rfl⟩

end Lisp
