import Lisp.Proofs.Machine.Calls

/-! The short form of a procedure definition makes a string in front of a single form the
description of the procedure, and puts more forms in sequence. Evaluated with the other forms a
description has no effect, so either way the body means all forms in sequence. -/

set_option autoImplicit false

namespace Lisp

/-- In a sequence the forms before the last one are evaluated for their effects. -/
theorem evaluates_begin_iff {room : Nat} {frame : FrameId} {init values : List Value}
    {before middle after : Store} {last value : Value}
    (effects : EvaluatesAll room frame init before values middle) :
    Evaluates (room + 1) (Keyword.begin.form (init ++ [last])) frame before value after ↔
      Evaluates (room + 1) last frame middle value after := by
  rw [evaluates_form_iff, Context.special, State.Halts, (effects.sequence last []).halts_iff]
  exact evaluates_succ_iff.symm

/-- Two forms have the same outcomes, with any budget, in every frame and store. -/
def SameMeaning (form form' : Value) : Prop :=
  ∀ budget frame before value after,
    Evaluates budget form frame before value after ↔
      Evaluates budget form' frame before value after

/-! ## Bodies -/

theorem evaluatesAll_description (doc : Option String) (room : Nat) (frame : FrameId)
    (store : Store) :
    ∃ values, EvaluatesAll room frame (descriptionForms doc) store values store := by
  cases doc with
  | none => exact ⟨[], .nil store⟩
  | some text =>
      cases room with
      -- Its evaluation is refused, and the refusal is not what the sequence gives.
      | zero => exact ⟨_, .cons ⟨0, rfl⟩ (.nil store)⟩
      | succ room => exact ⟨_, .cons ⟨2, rfl⟩ (.nil store)⟩

theorem sameMeaning_described (doc : Option String) (form : Value) :
    SameMeaning form (Keyword.begin.form (descriptionForms doc ++ [form])) := by
  intro budget frame before value after
  cases budget with
  | zero => rfl
  | succ room =>
      obtain ⟨values, effects⟩ := evaluatesAll_description doc room frame before
      exact (evaluates_begin_iff effects).symm

/-- What follows the parameters is a description, if there is one, and a form that means the same as
all forms in sequence. -/
theorem lambdaBody_means {body : List Value} (nonempty : body ≠ []) :
    ∃ doc form, lambdaBody body = descriptionForms doc ++ [form] ∧
      SameMeaning form (Keyword.begin.form body) := by
  rw [lambdaBody.eq_def]
  split
  · exact absurd rfl nonempty
  · next form => exact ⟨none, form, rfl, sameMeaning_described none form⟩
  · next doc form => exact ⟨some doc, form, rfl, sameMeaning_described (some doc) form⟩
  · exact ⟨none, Keyword.begin.form body, rfl, fun _ _ _ _ _ => .rfl⟩

/-! ## Procedures -/

/-- How arguments are bound, and which numbers of them are refused, does not depend on body and
description. -/
theorem bindArguments_congr {c d : Closure Value} (parameters : c.parameters = d.parameters)
    (isMacro : Bool) (args : List Value) :
    bindArguments ⟨.closure c, isMacro⟩ c args = bindArguments ⟨.closure d, isMacro⟩ d args := by
  simp only [bindArguments, Procedure.render, parameters]

theorem calls_closure_congr {c d : Closure Value} (parameters : c.parameters = d.parameters)
    (home : c.home = d.home) (bodies : SameMeaning c.body d.body) {isMacro : Bool} {budget : Nat}
    {args : List Value} {caller : FrameId} {before after : Store} {value : Value} :
    Calls budget (.procedure ⟨.closure c, isMacro⟩) args caller before value after ↔
      Calls budget (.procedure ⟨.closure d, isMacro⟩) args caller before value after := by
  rw [calls_closure_iff, calls_closure_iff, bindArguments_congr parameters, home]
  cases bindArguments ⟨.closure d, isMacro⟩ d args with
  | error cause => rfl
  | ok bindings => exact bodies ..

/-- A definition in short form defines a procedure whose calls have the same outcomes, those with a
wrong number of arguments included, as calls of the procedure that has all forms of the definition
in sequence for its body. -/
theorem definition_calls_iff {parameters : List Value} {names : List String}
    (accepted : parameterNames (.list parameters) = .ok names) {body : List Value}
    (nonempty : body ≠ []) (name : String) (frame : FrameId) :
    ∃ (lambda : Value) (defined explicit : Closure Value),
      expandDefinition (.symbol "define" :: .list (.symbol name :: parameters) :: body) =
        [.symbol "define", .symbol name, lambda] ∧
      (∀ room store,
        Evaluates (room + 1) lambda frame store (.procedure ⟨.closure defined, false⟩) store ∧
        Evaluates (room + 1) (Keyword.lambda.form [.list parameters, Keyword.begin.form body]) frame
          store (.procedure ⟨.closure explicit, false⟩) store) ∧
      ∀ budget args caller before value after,
        Calls budget (.procedure ⟨.closure defined, false⟩) args caller before value after ↔
          Calls budget (.procedure ⟨.closure explicit, false⟩) args caller before value after := by
  obtain ⟨doc, form, shape, means⟩ := lambdaBody_means nonempty
  refine ⟨Keyword.lambda.form (.list parameters :: lambdaBody body), ⟨names, form, frame, doc⟩,
    ⟨names, Keyword.begin.form body, frame, none⟩, rfl, fun room store => ⟨?_, ?_⟩, ?_⟩
  · rw [shape]
    exact evaluates_lambdaForm accepted doc form room frame store
  · exact evaluates_lambdaForm accepted none _ room frame store
  · intro budget args caller before value after
    exact calls_closure_congr (c := ⟨names, form, frame, doc⟩)
      (d := ⟨names, Keyword.begin.form body, frame, none⟩) rfl rfl means

/-- The string becomes the description, and the procedure wants at least one argument. -/
theorem definition_calls_iff_described :
    parameterNames (.list [.symbol "x", .symbol "&", .symbol "rest"]) = .ok ["x", "&", "rest"] ∧
      ([.string "all but the first", .symbol "rest"] : List Value) ≠ [] ∧
      ∃ (lambda : Value) (defined explicit : Closure Value),
        expandDefinition [.symbol "define",
            .list [.symbol "others", .symbol "x", .symbol "&", .symbol "rest"],
            .string "all but the first", .symbol "rest"] =
          [.symbol "define", .symbol "others", lambda] ∧
        (∀ room store,
          Evaluates (room + 1) lambda 0 store (.procedure ⟨.closure defined, false⟩) store ∧
          Evaluates (room + 1) (Keyword.lambda.form
              [.list [.symbol "x", .symbol "&", .symbol "rest"],
                Keyword.begin.form [.string "all but the first", .symbol "rest"]]) 0
            store (.procedure ⟨.closure explicit, false⟩) store) ∧
        ∀ budget args caller before value after,
          Calls budget (.procedure ⟨.closure defined, false⟩) args caller before value after ↔
            Calls budget (.procedure ⟨.closure explicit, false⟩) args caller before value after :=
  ⟨rfl, List.cons_ne_nil _ _, definition_calls_iff rfl (List.cons_ne_nil _ _) "others" 0⟩

end Lisp
