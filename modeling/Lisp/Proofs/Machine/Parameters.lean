import Lisp.Proofs.Machine.Equivalence
import Lisp.Proofs.Value.Closures

/-! A call binds its arguments to the parameters of the closure: none is lost and none is made up. -/

set_option autoImplicit false

namespace Lisp

/-! ## Parameter lists -/

/-- The names of a parameter list: the fixed parameters and, after a marker, the one for all remaining
arguments. That one may be the marker's own name. -/
inductive ParameterList : (names fixed : List String) → (rest : Option String) → Prop where
  | fixed {names : List String} (unmarked : restMarker ∉ names) : ParameterList names names none
  | variadic {fixed : List String} {rest : String} (unmarked : restMarker ∉ fixed) :
      ParameterList (fixed ++ [restMarker, rest]) fixed (some rest)

/-- Whether a call takes so many arguments. -/
def TakesCount (fixed : List String) : Option String → Nat → Prop
  | none, count => count = fixed.length
  | some _, count => fixed.length ≤ count

theorem TakesCount.le {fixed : List String} {rest : Option String} {count : Nat}
    (takes : TakesCount fixed rest count) : fixed.length ≤ count := by
  cases rest with
  | none => exact Nat.le_of_eq takes.symm
  | some name => exact takes

/-- The number of arguments that an error asks for. -/
def parameterCount (fixed : List String) : Option String → ArgumentCount
  | none => .just fixed.length
  | some _ => .atLeast fixed.length

theorem fixedParameters_marked {front : List String} (unmarked : restMarker ∉ front)
    (back : List String) : fixedParameters (front ++ restMarker :: back) = front := by
  have before : ∀ name ∈ front, decide (name ≠ restMarker) = true := fun name mem =>
    decide_eq_true fun same => unmarked (same ▸ mem)
  rw [fixedParameters, List.takeWhile_append_of_pos before]
  exact List.append_nil front

namespace ParameterList

variable {names fixed : List String} {rest : Option String}

theorem fixedParameters_eq (shape : ParameterList names fixed rest) :
    fixedParameters names = fixed := by
  cases shape with
  | fixed unmarked => exact Lisp.fixedParameters_eq fun name mem same => unmarked (same ▸ mem)
  | variadic unmarked => exact fixedParameters_marked unmarked _

theorem isVariadic_eq (shape : ParameterList names fixed rest) :
    isVariadic names = rest.isSome := by
  rw [isVariadic, shape.fixedParameters_eq]
  cases shape with
  | fixed unmarked => simp
  | variadic unmarked => simp

theorem restParameter?_eq (shape : ParameterList names fixed rest) :
    restParameter? names = rest := by
  rw [restParameter?, shape.fixedParameters_eq]
  cases shape with
  | fixed unmarked => exact List.getElem?_eq_none (Nat.le_succ _)
  | variadic unmarked =>
      rw [List.getElem?_append_right (Nat.le_succ _), Nat.succ_sub (Nat.le_refl _), Nat.sub_self]
      rfl

theorem expectedCount_eq (shape : ParameterList names fixed rest) :
    expectedCount names = parameterCount fixed rest := by
  rw [expectedCount, shape.isVariadic_eq, shape.fixedParameters_eq]
  cases rest <;> rfl

theorem accepts_iff (shape : ParameterList names fixed rest) (count : Nat) :
    accepts names count = true ↔ TakesCount fixed rest count := by
  rw [accepts, shape.isVariadic_eq, shape.fixedParameters_eq]
  cases rest with
  | none => exact decide_eq_true_iff.trans eq_comm
  | some name => exact decide_eq_true_iff

/-- A marker has to have one name after it. -/
theorem exists_of_single
    (single : isVariadic names = true → (fixedParameters names).length + 2 = names.length) :
    ∃ fixed rest, ParameterList names fixed rest := by
  by_cases marked : restMarker ∈ names
  · obtain ⟨front, back, rfl, unmarked⟩ := List.eq_append_cons_of_mem marked
    have isVariadic : isVariadic (front ++ restMarker :: back) = true := by
      simp [isVariadic, fixedParameters_marked unmarked]
    have length := single isVariadic
    rw [fixedParameters_marked unmarked, List.length_append, List.length_cons] at length
    obtain ⟨rest, rfl⟩ := List.length_eq_one_iff.mp (show back.length = 1 by omega)
    exact ⟨front, some rest, .variadic unmarked⟩
  · exact ⟨names, none, .fixed marked⟩

end ParameterList

theorem symbolNames_eq_ok {form : String} {items : List Value} {names : List String}
    (accepted : symbolNames form items = .ok names) : items = names.map .symbol := by
  induction items generalizing names with
  | nil =>
      cases accepted
      rfl
  | cons v items ih =>
      rw [symbolNames] at accepted
      cases v with
      | symbol name =>
          simp only [symbolName, Value.symbol?] at accepted
          cases others : symbolNames form items with
          | error cause =>
              rw [others] at accepted
              cases accepted
          | ok found =>
              rw [others] at accepted
              cases accepted
              rw [ih others, List.map_cons]
      | _ => cases accepted

/-- What is accepted for the parameters of a procedure is a list of their names. -/
theorem parameterList_of_parameterNames {v : Value} {names : List String}
    (accepted : parameterNames v = .ok names) :
    v = .list (names.map .symbol) ∧ ∃ fixed rest, ParameterList names fixed rest := by
  cases v with
  | list items =>
      rw [parameterNames] at accepted
      cases symbols : symbolNames "lambda" items with
      | error cause => simp [symbols] at accepted
      | ok found =>
          simp only [symbols] at accepted
          split at accepted
          · cases accepted
          · next single =>
              cases accepted
              refine ⟨by rw [symbolNames_eq_ok symbols],
                ParameterList.exists_of_single fun variadic => ?_⟩
              simpa [variadic] using single
  | _ => cases accepted

/-! ## Bindings -/

/-- What a call binds. Of equal names the last fixed parameter counts, and the parameter for the
remaining arguments before all of them. -/
structure Receives (fixed : List String) (rest : Option String) (args : List Value)
    (bindings : Dict Value) : Prop where
  ordered : bindings.Ascending
  names : ∀ name, name ∈ bindings.keys ↔ name ∈ fixed ∨ rest = some name
  last : ∀ front name back, fixed = front ++ name :: back → name ∉ back → rest ≠ some name →
    bindings.get? name = args[front.length]?
  remaining : ∀ name, rest = some name →
    bindings.get? name = some (.list (args.drop fixed.length))

section Receives

variable {names fixed : List String} {rest : Option String} {args : List Value}
  {bindings : Dict Value}

theorem get?_ofList_zip {front back : List String} {name : String}
    (enough : fixed.length ≤ args.length) (split : fixed = front ++ name :: back)
    (last : name ∉ back) :
    (Dict.ofList (fixed.zip args)).get? name = args[front.length]? := by
  subst split
  rw [List.length_append, List.length_cons] at enough
  have inside : front.length < args.length := by omega
  have taken : front.length = (args.take front.length).length := by
    rw [List.length_take_of_le inside.le]
  have zipped : (front ++ name :: back).zip args = front.zip (args.take front.length) ++
      (name, args[front.length]) :: back.zip (args.drop (front.length + 1)) := by
    rw [← List.zip_cons_cons, List.getElem_cons_drop, ← List.zip_append taken,
      List.take_append_drop]
  rw [zipped, List.getElem?_eq_getElem inside]
  -- The pairs of the later parameters do not have this name.
  refine Dict.get?_ofList_last _ fun mem => ?_
  obtain ⟨pair, among, same⟩ := List.mem_map.mp mem
  exact last (same ▸ (List.of_mem_zip among).1)

theorem receives_parameterBindings (shape : ParameterList names fixed rest)
    (enough : fixed.length ≤ args.length) :
    Receives fixed rest args (parameterBindings names args) := by
  have named (name : String) : name ∈ (Dict.ofList (fixed.zip args)).keys ↔ name ∈ fixed := by
    rw [Dict.mem_keys_ofList, List.map_fst_zip enough]
  have ordered := ascending_parameterBindings names args
  rw [parameterBindings, shape.restParameter?_eq, shape.fixedParameters_eq] at ordered ⊢
  cases rest with
  | none =>
      refine ⟨ordered, by simpa using named, fun front name back split last _ => ?_, fun name => ?_⟩
      · exact get?_ofList_zip enough split last
      · intro same
        cases same
  | some own =>
      refine ⟨ordered, fun name => ?_, fun front name back split last other => ?_, ?_⟩
      · rw [Dict.mem_keys_iff, Dict.isSome_get?_insert, ← Dict.mem_keys_iff, named, or_comm,
          Option.some_inj, eq_comm]
      · rw [Dict.get?_insert_other _ _ fun same => other (congrArg some same.symm)]
        exact get?_ofList_zip enough split last
      · intro name same
        cases same
        exact Dict.get?_insert_same _ _ _

/-- The arguments of a call in two parts: the values of the fixed parameters, and the remaining ones,
which have a parameter for them if there are any. -/
def Divides (fixed : List String) (rest : Option String) (args : List Value)
    (bindings : Dict Value) : Prop :=
  ∃ values more, args = values ++ more ∧ fixed.map bindings.get? = values.map some ∧
    match rest with
    | none => more = []
    | some name => bindings.get? name = some (.list more)

theorem Receives.divides (receives : Receives fixed rest args bindings)
    (enough : TakesCount fixed rest args.length) (distinct : (fixed ++ rest.toList).Nodup) :
    Divides fixed rest args bindings := by
  have atLeast : fixed.length ≤ args.length := enough.le
  obtain ⟨nodup, -, apart⟩ := List.nodup_append.mp distinct
  refine ⟨args.take fixed.length, args.drop fixed.length, (List.take_append_drop _ _).symm, ?_, ?_⟩
  · refine List.ext_getElem (by simpa using atLeast) fun i inside _ => ?_
    rw [List.length_map] at inside
    have split : fixed = fixed.take i ++ fixed[i] :: fixed.drop (i + 1) := by
      rw [List.getElem_cons_drop, List.take_append_drop]
    have last : fixed[i] ∉ fixed.drop (i + 1) := by
      rw [split] at nodup
      exact (List.nodup_cons.mp nodup.of_append_right).1
    have other : rest ≠ some fixed[i] := fun same =>
      apart _ (List.getElem_mem inside) fixed[i] (by simp [same]) rfl
    rw [List.getElem_map, List.getElem_map, List.getElem_take, receives.last _ _ _ split last other,
      List.length_take_of_le inside.le, List.getElem?_eq_getElem (by omega)]
  · cases rest with
    | none => exact List.drop_eq_nil_of_le (Nat.le_of_eq enough)
    | some name => exact receives.remaining name rfl

end Receives

/-! ## Calls -/

/-- How calls of a procedure with a closure bind arguments. The body runs in a new frame, enclosed in
the closure's own, in which the bindings are all that there is; or else it does not run. -/
structure BindsArguments (p : Procedure Value) (closure : Closure Value) (fixed : List String)
    (rest : Option String) (args : List Value) : Prop where
  succeeds : (∃ bindings, bindArguments p closure args = .ok bindings) ↔
    TakesCount fixed rest args.length
  receives : ∀ bindings, bindArguments p closure args = .ok bindings →
    Receives fixed rest args bindings ∧
      ((fixed ++ rest.toList).Nodup → Divides fixed rest args bindings)
  enters : ∀ bindings, bindArguments p closure args = .ok bindings →
    ∀ stack room (store : Store) frame,
      let inner : Context := ⟨stack, room, { store with
        frames := store.frames.push
          ⟨some closure.home, bindings, [], store.consoleOf closure.home⟩ }⟩
      Context.apply ⟨stack, room, store⟩ p args frame = inner.eval closure.body store.frames.size ∧
        ∀ use, Context.callProcedure ⟨stack, room, store⟩ p args frame use =
          inner.descend (.result use) closure.body store.frames.size
  refuses : ¬ TakesCount fixed rest args.length →
    let cause : EvalError := .arity p.render (parameterCount fixed rest) args.length
    bindArguments p closure args = .error cause ∧
      ∀ (context : Context) frame, context.apply p args frame = context.fail cause ∧
        ∀ use, context.callProcedure p args frame use = ⟨.yield use (.error cause), context⟩

theorem ParameterList.bindsArguments {closure : Closure Value} {fixed : List String}
    {rest : Option String} (shape : ParameterList closure.parameters fixed rest) (isMacro : Bool)
    (args : List Value) :
    BindsArguments ⟨.closure closure, isMacro⟩ closure fixed rest args := by
  have accepted (takes : TakesCount fixed rest args.length) :
      bindArguments ⟨.closure closure, isMacro⟩ closure args =
        .ok (parameterBindings closure.parameters args) := by
    rw [bindArguments, if_pos ((shape.accepts_iff _).mpr takes)]
  have refused (wrong : ¬ TakesCount fixed rest args.length) :
      bindArguments ⟨.closure closure, isMacro⟩ closure args = .error
        (.arity (Procedure.render ⟨.closure closure, isMacro⟩) (parameterCount fixed rest)
          args.length) := by
    rw [bindArguments, if_neg (mt (shape.accepts_iff _).mp wrong), shape.expectedCount_eq]
  have fits (bindings : Dict Value)
      (bound : bindArguments ⟨.closure closure, isMacro⟩ closure args = .ok bindings) :
      TakesCount fixed rest args.length := by
    by_contra wrong
    rw [refused wrong] at bound
    cases bound
  refine ⟨⟨fun succeeds => ?_, fun takes => ⟨_, accepted takes⟩⟩, fun bindings bound => ?_,
    fun bindings bound stack room store frame => ⟨?_, fun use => ?_⟩,
    fun wrong => ⟨refused wrong, fun context frame => ⟨?_, fun use => ?_⟩⟩⟩
  · obtain ⟨bindings, bound⟩ := succeeds
    exact fits bindings bound
  · have takes := fits bindings bound
    obtain rfl := bindArguments_ok bound
    have receives := receives_parameterBindings shape takes.le
    exact ⟨receives, receives.divides takes⟩
  · simp only [Context.apply, bound]
    rfl
  · simp only [Context.callProcedure, bound]
    rfl
  · simp only [Context.apply, refused wrong]
  · simp only [Context.callProcedure, refused wrong]

theorem makeClosure_halts {room : Nat} {parameters body : Value} {doc : Option String}
    {home : FrameId} {before after : Store} {p : Procedure Value}
    (halts : (Context.makeClosure ⟨[], room, before⟩ parameters doc body home).Halts
      (.procedure p, after)) :
    ∃ names, parameterNames parameters = .ok names ∧
      p = ⟨.closure ⟨names, body, home, doc⟩, false⟩ := by
  rw [Context.makeClosure] at halts
  cases accepted : parameterNames parameters with
  | error cause =>
      simp only [accepted, Context.fail, State.halts_finish] at halts
      cases halts
  | ok names =>
      simp only [accepted, Context.finish, State.halts_finish] at halts
      cases halts
      exact ⟨names, rfl, rfl⟩

theorem evaluates_lambda_closure {budget : Nat} {operands : List Value} {home : FrameId}
    {before after : Store} {p : Procedure Value}
    (built : Evaluates budget (Keyword.lambda.form operands) home before (.procedure p) after) :
    ∃ parameters names body doc, operands.head? = some parameters ∧
      parameterNames parameters = .ok names ∧
      p = ⟨.closure ⟨names, body, home, doc⟩, false⟩ := by
  cases budget with
  | zero =>
      obtain ⟨fuel, ended⟩ := built
      cases ended
  | succ room =>
      simp only [evaluates_form_iff, Context.special] at built
      split at built
      · obtain ⟨names, accepted, rfl⟩ := makeClosure_halts built
        exact ⟨_, names, _, _, rfl, accepted, rfl⟩
      · obtain ⟨names, accepted, rfl⟩ := makeClosure_halts built
        exact ⟨_, names, _, _, rfl, accepted, rfl⟩
      · rw [Context.fail, State.halts_finish] at built
        cases built
      · rw [Context.wrongCount, Context.fail, State.halts_finish] at built
        cases built

/-- The closure that a lambda form makes has the frame of the form for its own, and the parameter list
that the form has. Whatever it is called with, and whether or not it has been made a macro, its
parameters receive the arguments if their number fits, and all of them; otherwise its body does not
run. -/
theorem lambda_bindsArguments {budget : Nat} {operands : List Value} {home : FrameId}
    {before after : Store} {p : Procedure Value}
    (built : Evaluates budget (Keyword.lambda.form operands) home before (.procedure p) after) :
    ∃ (closure : Closure Value) (fixed : List String) (rest : Option String),
      p = ⟨.closure closure, false⟩ ∧ closure.home = home ∧
        operands.head? = some (.list (closure.parameters.map .symbol)) ∧
        ParameterList closure.parameters fixed rest ∧
        ∀ isMacro args, BindsArguments ⟨.closure closure, isMacro⟩ closure fixed rest args := by
  obtain ⟨parameters, names, body, doc, first, accepted, rfl⟩ := evaluates_lambda_closure built
  obtain ⟨rfl, fixed, rest, shape⟩ := parameterList_of_parameterNames accepted
  exact ⟨⟨names, body, home, doc⟩, fixed, rest, rfl, rfl, first, shape,
    ParameterList.bindsArguments shape⟩

/-- `x` occurs twice, and `y` takes the remaining arguments as well. -/
private def repeatedParameters : Value :=
  .list [.symbol "x", .symbol "y", .symbol "x", .symbol restMarker, .symbol "y"]

private def repeatedClosure : Closure Value :=
  ⟨["x", "y", "x", restMarker, "y"], .symbol "y", 0, none⟩

private def bareStore : Store :=
  ⟨#[⟨none, [], [], 0⟩], #[], #[]⟩

theorem lambda_bindsArguments_repeated :
    Evaluates 1 (Keyword.lambda.form [repeatedParameters, .symbol "y"]) 0 bareStore
        (.procedure ⟨.closure repeatedClosure, false⟩) bareStore ∧
      (∃ bindings, bindArguments ⟨.closure repeatedClosure, false⟩ repeatedClosure
          [.bool true, .nil, .bool false, .nil] = .ok bindings ∧
        bindings.get? "x" = some (.bool false) ∧ bindings.get? "y" = some (.list [.nil])) ∧
      Context.apply ⟨[], 0, bareStore⟩ ⟨.closure repeatedClosure, false⟩ [.nil, .nil] 0 =
        Context.fail ⟨[], 0, bareStore⟩ (.arity "#<lambda (x y x & y)>" (.atLeast 3) 2) := by
  have built : Evaluates 1 (Keyword.lambda.form [repeatedParameters, .symbol "y"]) 0 bareStore
      (.procedure ⟨.closure repeatedClosure, false⟩) bareStore := ⟨4, rfl⟩
  obtain ⟨closure, fixed, rest, same, -, -, shape, binds⟩ := lambda_bindsArguments built
  cases same
  obtain rfl : ["x", "y", "x"] = fixed := shape.fixedParameters_eq
  obtain rfl : some "y" = rest := shape.restParameter?_eq
  refine ⟨built, ?_, ?_⟩
  · have full := binds false [.bool true, .nil, .bool false, .nil]
    obtain ⟨bindings, bound⟩ := full.succeeds.mpr (show 3 ≤ 4 by decide)
    obtain ⟨receives, -⟩ := full.receives bindings bound
    exact ⟨bindings, bound, receives.last ["x", "y"] "x" [] rfl (by decide) (by decide),
      receives.remaining "y" rfl⟩
  · have short := (binds false [.nil, .nil]).refuses (show ¬ 3 ≤ 2 by decide)
    exact (short.2 _ 0).1

end Lisp
