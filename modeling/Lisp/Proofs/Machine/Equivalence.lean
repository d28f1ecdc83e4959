import Lisp.Proofs.Machine.Waiting

/-! Forms that mean the same. Two forms mean the same when they have the same values and leave the
same stores, and one of them ends whenever the other does. -/

set_option autoImplicit false

namespace Lisp

/-- An application goes on with the value of its operator. -/
theorem application_reaches {head value : Value}
    (application : head.symbol?.bind Keyword.ofName? = none) {room : Nat} {frame : FrameId}
    {before middle : Store} (operator : Evaluates room head frame before value middle)
    (operands : List Value) (stack : List Pending) :
    State.Reaches ⟨.eval (.list (head :: operands)) frame, ⟨stack, room, before⟩⟩
      (Context.resumeStep ⟨stack, room, middle⟩ (.operator head operands frame) value) := by
  refine State.Reaches.trans (.ofStep rfl) ?_
  rw [evalStep_application application]
  exact operator.resumes (.operator head operands frame) stack

/-! ## Macro calls -/

section MacroCalls

variable {m : String} {operands : List Value} {p : Procedure Value} {frame : FrameId}
  {store : Store}

theorem macroCall?_symbol (isName : Keyword.ofName? m = none)
    (found : store.lookup? frame m = some (.procedure p)) (isMacro : p.isMacro = true) :
    Context.macroCall? store frame (.list (.symbol m :: operands)) = some (p, operands) := by
  simp only [Context.macroCall?, isName, found, isMacro, if_true]

theorem evaluates_symbol {name : String} {value : Value}
    (found : store.lookup? frame name = some value) (room : Nat) :
    Evaluates (room + 1) (.symbol name) frame store value store :=
  ⟨2, by simp only [evaluateWithin, State.run, State.step, Context.evalStep, Context.finish, found,
    Option.getD_some]⟩

/-- The lookup of the name is an evaluation of its own, for which there has to be room. -/
theorem macroCall_reaches (isName : Keyword.ofName? m = none)
    (found : store.lookup? frame m = some (.procedure p)) (isMacro : p.isMacro = true)
    (operands : List Value) (room : Nat) (stack : List Pending) :
    State.Reaches ⟨.eval (.list (.symbol m :: operands)) frame, ⟨stack, room + 1, store⟩⟩
      (Context.callProcedure ⟨stack, room + 1, store⟩ p operands frame (.expansion frame)) := by
  have application : (Value.symbol m).symbol?.bind Keyword.ofName? = none := isName
  have reached := application_reaches application (evaluates_symbol found room) operands stack
  simp only [Context.resumeStep, isMacro, if_true] at reached
  exact reached

theorem evaluates_expandMacro_iff (isName : Keyword.ofName? m = none)
    (found : store.lookup? frame m = some (.procedure p)) (isMacro : p.isMacro = true)
    {room : Nat} {expansion : Value} {middle : Store} :
    Evaluates (room + 1) (Keyword.expandMacro.form [.list (.symbol m :: operands)]) frame store
        expansion middle ↔
      Calls room (.procedure p) operands frame store expansion middle := by
  rw [evaluates_form_iff]
  simp only [Context.special, macroCall?_symbol isName found isMacro]
  rw [callProcedure_halts_iff]
  constructor
  · rintro ⟨value, after, calls, ended⟩
    rw [State.answer_halts_iff] at ended
    cases ended
    exact calls
  · intro calls
    exact ⟨expansion, middle, calls, 2, rfl⟩

theorem expansion_halts_iff {room : Nat} {expansion value : Value} {middle after : Store} :
    State.Halts ⟨.yield (.expansion frame) expansion, ⟨[], room, middle⟩⟩ (value, after) ↔
      if expansion.isError then value = expansion ∧ after = middle
      else Evaluates (room + 1) expansion frame middle value after := by
  rw [State.halts_step rfl, Context.yieldStep]
  split
  · rw [Context.finish, State.halts_finish, Prod.mk.injEq, eq_comm, @eq_comm _ middle]
  · exact evaluates_succ_iff.symm

/-- A macro call means the same as its expansion and then, unless that is an error, the evaluation
of what it expands to. This is so wherever there is room for the lookup of the macro. -/
theorem evaluates_macroCall_iff (isName : Keyword.ofName? m = none)
    (found : store.lookup? frame m = some (.procedure p)) (isMacro : p.isMacro = true)
    (operands : List Value) (room : Nat) (value : Value) (after : Store) :
    Evaluates (room + 2) (.list (.symbol m :: operands)) frame store value after ↔
      ∃ expansion middle,
        Evaluates (room + 2) (Keyword.expandMacro.form [.list (.symbol m :: operands)]) frame store
          expansion middle ∧
        if expansion.isError then value = expansion ∧ after = middle
        else Evaluates (room + 2) expansion frame middle value after := by
  have reached := macroCall_reaches isName found isMacro operands room []
  rw [evaluates_succ_iff, State.Halts, reached.halts_iff]
  simp only [evaluates_expandMacro_iff isName found isMacro]
  exact callProcedure_halts_iff.trans (by simp only [expansion_halts_iff])

/-- Forgets itself, and expands to the definition of a name as the operand. -/
private def forgetful : Procedure Value where
  callable := .closure ⟨["x"], Keyword.begin.form [
    Keyword.assign.form [.symbol "m", .nil, .symbol "outer"],
    Keyword.quasiquote.form [.list [.symbol "define", .symbol "y",
      .list [.symbol "unquote", .symbol "x"]]]], 0, none⟩
  isMacro := true

private def macroStore : Store :=
  ⟨#[⟨none, [("m", .procedure forgetful)], [], 0⟩], #[], #[]⟩

private def forgottenStore : Store :=
  ⟨#[⟨none, [("m", .nil)], [], 0⟩, ⟨some 0, [("x", .list [.symbol "list", .symbol "m"])], [], 0⟩],
    #[], #[]⟩

theorem evaluates_macroCall_iff_forgetful :
    Keyword.ofName? "m" = none ∧ macroStore.lookup? 0 "m" = some (.procedure forgetful) ∧
      forgetful.isMacro = true ∧
      Evaluates 4 (.list [.symbol "m", .list [.symbol "list", .symbol "m"]]) 0 macroStore .nil
        (forgottenStore.define 0 "y" (.error (.notAProcedure "list (nil)"))) := by
  have found : macroStore.lookup? 0 "m" = some (.procedure forgetful) := rfl
  have expanded : Evaluates 4 (Keyword.expandMacro.form
      [.list [.symbol "m", .list [.symbol "list", .symbol "m"]]]) 0 macroStore
      (.list [.symbol "define", .symbol "y", .list [.symbol "list", .symbol "m"]])
      forgottenStore := ⟨40, rfl⟩
  exact ⟨rfl, found, rfl, (evaluates_macroCall_iff rfl found rfl _ 2 _ _).mpr
    ⟨_, _, expanded, 40, rfl⟩⟩

end MacroCalls

/-! ## Immediate applications -/

theorem symbolNames_symbols (form : String) (names : List String) :
    symbolNames form (names.map .symbol) = .ok names := by
  induction names with
  | nil => rfl
  | cons name rest ih =>
      simp only [List.map_cons, symbolNames, symbolName, Value.symbol?, ih, Except.map]

section Unmarked

variable {names : List String} (unmarked : ∀ name ∈ names, name ≠ restMarker)

include unmarked

theorem fixedParameters_eq : fixedParameters names = names :=
  List.takeWhile_eq_self_iff.mpr fun name mem => decide_eq_true (unmarked name mem)

theorem isVariadic_eq_false : isVariadic names = false := by
  rw [isVariadic, fixedParameters_eq unmarked]
  exact decide_eq_false (Nat.lt_irrefl _)

theorem parameterNames_symbols : parameterNames (.list (names.map .symbol)) = .ok names := by
  simp only [parameterNames, symbolNames_symbols, isVariadic_eq_false unmarked, Bool.false_and,
    Bool.false_eq_true, if_false]

/-- Without a marker each parameter has the argument in its place. -/
theorem bindArguments_eq {p : Procedure Value} {body : Value} {home : FrameId}
    {doc : Option String} {args : List Value} (enough : args.length = names.length) :
    bindArguments p ⟨names, body, home, doc⟩ args = .ok (Dict.ofList (names.zip args)) := by
  have accepted : accepts names args.length = true := by
    simp only [accepts, isVariadic_eq_false unmarked, fixedParameters_eq unmarked, enough,
      Bool.false_eq_true, if_false, decide_true]
  have noRest : restParameter? names = none := by
    rw [restParameter?, fixedParameters_eq unmarked]
    exact List.getElem?_eq_none (Nat.le_succ _)
  simp only [bindArguments, accepted, if_true, parameterBindings, noRest,
    fixedParameters_eq unmarked]

end Unmarked

/-- The application, to operands, of the procedure with these parameters and this body. -/
def immediateApplication (bindings : List (String × Value)) (body : List Value) : Value :=
  .list (Keyword.lambda.form [.list ((bindings.map Prod.fst).map .symbol),
    Keyword.begin.form body] :: bindings.map Prod.snd)

/-- The description of a procedure, where there is one. -/
def descriptionForms (doc : Option String) : List Value :=
  doc.toList.map .string

theorem evaluates_lambdaForm {parameters : Value} {names : List String}
    (accepted : parameterNames parameters = .ok names) (doc : Option String) (body : Value)
    (room : Nat) (frame : FrameId) (store : Store) :
    Evaluates (room + 1) (Keyword.lambda.form (parameters :: (descriptionForms doc ++ [body])))
      frame store (.procedure ⟨.closure ⟨names, body, frame, doc⟩, false⟩) store := by
  rw [evaluates_form_iff]
  cases doc <;>
    simp only [descriptionForms, Option.toList, List.map, List.cons_append, List.nil_append,
      Context.special, Context.makeClosure, accepted, Context.finish, State.halts_finish]

theorem evaluates_lambda {bindings : List (String × Value)}
    (unmarked : ∀ name ∈ bindings.map Prod.fst, name ≠ restMarker) (body : Value) (room : Nat)
    (frame : FrameId) (store : Store) :
    Evaluates (room + 1)
      (Keyword.lambda.form [.list ((bindings.map Prod.fst).map .symbol), body]) frame store
      (.procedure ⟨.closure ⟨bindings.map Prod.fst, body, frame, none⟩, false⟩) store :=
  evaluates_lambdaForm (parameterNames_symbols unmarked) none body room frame store

theorem step_begin (forms : List Value) (frame : FrameId) (c : Context) :
    State.step ⟨.eval (Keyword.begin.form forms) frame, c⟩ = .running (c.sequence forms frame) :=
  step_form .begin forms frame c

/-- A `let` means the same as the immediate application of a procedure that has the bound names for
parameters and the whole body for its body. This is so wherever there is room for the evaluation of
the operator, which a `let` does not have. -/
theorem evaluates_letBlock_iff_application {bindings : List (String × Value)}
    (unmarked : ∀ binding ∈ bindings, binding.1 ≠ restMarker) (body : List Value) (room : Nat)
    (frame : FrameId) (before : Store) (value : Value) (after : Store) :
    Evaluates (room + 2) (Keyword.letBlock.form (.list (bindingForms bindings) :: body)) frame
        before value after ↔
      Evaluates (room + 2) (immediateApplication bindings body) frame before value after := by
  have unmarkedNames : ∀ name ∈ bindings.map Prod.fst, name ≠ restMarker :=
    List.forall_mem_map.mpr unmarked
  have block : State.step ⟨.eval (Keyword.letBlock.form (.list (bindingForms bindings) :: body))
      frame, ⟨[], room + 1, before⟩⟩ =
      .running (Context.bindNext ⟨[], room + 1, before⟩ [] (bindingForms bindings) body frame) := by
    rw [State.step, evalStep_form, Context.special]
  have operator := evaluates_lambda unmarkedNames (Keyword.begin.form body) room frame before
  have application := application_reaches rfl operator (bindings.map Prod.snd) []
  simp only [Context.resumeStep, Bool.false_eq_true, if_false] at application
  rw [evaluates_succ_iff, State.halts_step block, bindNext_halts_iff, immediateApplication,
    evaluates_succ_iff, State.Halts, application.halts_iff, ← State.Halts, applyNext_halts_iff]
  refine exists_congr fun values => exists_congr fun middle => and_congr_right fun evaluated => ?_
  have enough : values.length = (bindings.map Prod.fst).length := by
    rw [evaluated.length_eq, List.length_map, List.length_map]
  simp only [Context.apply, bindArguments_eq unmarkedNames enough, enter_eq rfl, Context.eval]
  exact (State.halts_step (step_begin body _ _)).symm

/-- The first value of `x` defines a name that the second uses, and `e` is an error. -/
private def repeatedBindings : List (String × Value) :=
  [("x", Keyword.begin.form [Keyword.define.form [.symbol "y", .bool true], .nil]),
    ("x", .symbol "y"), ("e", .list [.symbol "y"])]

theorem evaluates_letBlock_iff_application_repeated :
    (∀ binding ∈ repeatedBindings, binding.1 ≠ restMarker) ∧
      Evaluates 4 (Keyword.letBlock.form (.list (bindingForms repeatedBindings) ::
          [Keyword.define.form [.symbol "z", .symbol "e"], .symbol "x"])) 0
        ⟨#[⟨none, [], [], 0⟩], #[], #[]⟩ (.bool true)
        ⟨#[⟨none, [("y", .bool true)], [], 0⟩,
          ⟨some 0, [("e", .error (.notAProcedure "y (bool)")), ("x", .bool true),
            ("z", .error (.notAProcedure "y (bool)"))], [], 0⟩], #[], #[]⟩ := by
  have unmarked : ∀ binding ∈ repeatedBindings, binding.1 ≠ restMarker := by
    simp [repeatedBindings, restMarker]
  exact ⟨unmarked, (evaluates_letBlock_iff_application unmarked _ 2 0 _ _ _).mpr ⟨40, rfl⟩⟩

end Lisp
