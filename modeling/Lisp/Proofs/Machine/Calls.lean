import Lisp.Proofs.Machine.Equivalence

/-! Ways to call a procedure: a call from within the machine, an application to quoted arguments and
a call of `apply`. All of them bind the same arguments, and they differ only in how many evaluations
surround the body of a closure. -/

set_option autoImplicit false

namespace Lisp

section

variable {budget larger room : Nat} {frame : FrameId} {before after : Store} {value : Value}
  {args : List Value}

/-- All evaluations within the call find room. -/
def UnrefusedCall (budget : Nat) (callee : Value) (args : List Value) (frame : FrameId)
    (store : Store) : Prop :=
  ¬ State.Refused ⟨.call callee args frame .answer, ⟨[], budget, store⟩⟩

theorem UnrefusedCall.calls_iff {callee : Value}
    (unrefused : UnrefusedCall budget callee args frame before) (atMost : budget ≤ larger) :
    Calls larger callee args frame before value after ↔
      Calls budget callee args frame before value after := by
  obtain ⟨extra, rfl⟩ := Nat.exists_eq_add_of_le atMost
  exact State.halts_lift_iff unrefused extra

/-! ## What a call is -/

theorem calls_iff {callee : Value} :
    Calls budget callee args frame before value after ↔
      (Context.call ⟨[], budget, before⟩ callee args frame .answer).Halts (value, after) :=
  State.halts_step rfl

/-- A call of a closure is an evaluation of its body in a new frame, unless the number of arguments
is wrong. -/
theorem calls_closure_iff {closure : Closure Value} {isMacro : Bool} :
    Calls budget (.procedure ⟨.closure closure, isMacro⟩) args frame before value after ↔
      match bindArguments ⟨.closure closure, isMacro⟩ closure args with
      | .error cause => (.error cause, before) = (value, after)
      | .ok bindings =>
        Evaluates budget closure.body (before.addChild closure.home bindings).1
          (before.addChild closure.home bindings).2 value after := by
  rw [calls_iff]
  simp only [Context.call, Context.callProcedure]
  cases bindArguments ⟨.closure closure, isMacro⟩ closure args with
  | error cause => exact State.answer_halts_iff
  | ok bindings =>
      dsimp only
      rw [enter_eq rfl, descend_halts_iff]
      constructor
      · rintro ⟨result, middle, evaluated, ended⟩
        rw [Context.resumeStep, State.answer_halts_iff] at ended
        cases ended
        exact evaluated
      · exact fun evaluated => ⟨value, after, evaluated, State.answer_halts_iff.mpr rfl⟩

/-- How many evaluations a call begins by itself: that of the body of a closure. -/
def Procedure.levels (p : Procedure Value) : Nat :=
  match p.callable with
  | .native _ => 0
  | .closure _ => 1

/-- In tail position the body of a closure has the room of the application itself, where a call
would begin an evaluation for it. -/
theorem apply_halts_iff {p : Procedure Value} :
    (Context.apply ⟨[], room, before⟩ p args frame).Halts (value, after) ↔
      Calls (room + p.levels) (.procedure p) args frame before value after := by
  obtain ⟨operation | closure, isMacro⟩ := p
  · rw [calls_iff]
    rfl
  · rw [calls_closure_iff]
    simp only [Context.apply]
    cases bindArguments ⟨.closure closure, isMacro⟩ closure args with
    | error cause => exact State.halts_finish
    | ok bindings =>
        dsimp only
        rw [enter_eq rfl]
        exact evaluates_succ_iff.symm

/-! ## Applications to quoted arguments -/

def quotedApplication (p : Procedure Value) (args : List Value) : Value :=
  .list (.procedure p :: args.map fun v => Keyword.quote.form [v])

theorem evaluatesAll_quoted (args : List Value) (room : Nat) (frame : FrameId) (store : Store) :
    EvaluatesAll (room + 1) frame (args.map fun v => Keyword.quote.form [v]) store args store := by
  induction args with
  | nil => exact .nil store
  | cons v rest ih => exact .cons (evaluates_quote v room frame store) ih

theorem evaluates_quotedApplication_iff {p : Procedure Value} (function : p.isMacro = false) :
    Evaluates (room + 2) (quotedApplication p args) frame before value after ↔
      Calls (room + 1 + p.levels) (.procedure p) args frame before value after := by
  have operator : Evaluates (room + 1) (.procedure p) frame before (.procedure p) before := ⟨2, rfl⟩
  have operands := evaluatesAll_quoted args room frame before
  have reached := application_reaches rfl operator (args.map fun v => Keyword.quote.form [v]) []
  simp only [Context.resumeStep, function, Bool.false_eq_true, if_false] at reached
  have applied := reached.trans (operands.applies p [] [])
  rw [evaluates_succ_iff, State.Halts, quotedApplication, applied.halts_iff]
  exact apply_halts_iff

/-! ## Calls of `apply` -/

theorem spread_append (p : Procedure Value) (leading : List Value) {rest : List Value}
    {last : Value} (listed : last = .list rest ∨ last = .nil ∧ rest = []) :
    Native.spread (.procedure p :: (leading ++ [last])) =
      .call (.procedure p) (leading ++ rest) := by
  obtain ⟨second, more, shape⟩ : ∃ second more, leading ++ [last] = second :: more := by
    cases leading <;> simp
  rw [shape, Native.spread, ← shape]
  rcases listed with rfl | ⟨rfl, rfl⟩ <;> simp [Native.listArgument]

theorem calls_apply_iff {isMacro : Bool} {p : Procedure Value} {leading rest : List Value}
    {last : Value} (listed : last = .list rest ∨ last = .nil ∧ rest = []) :
    Calls budget (.procedure ⟨.native .apply, isMacro⟩) (.procedure p :: (leading ++ [last])) frame
        before value after ↔
      Calls budget (.procedure p) (leading ++ rest) frame before value after := by
  rw [calls_iff]
  simp only [Context.call, Context.callProcedure, Context.callNative, Native.reply,
    spread_append p leading listed]
  exact Iff.rfl

end

/-- A call of a procedure, its application to its quoted arguments, and a call of `apply` with some
of the arguments followed by a list of the others have the same outcomes, each with any budget with
which it is refused no room. In place of an empty list there may be nil. -/
theorem calls_iff_applied {p : Procedure Value} (function : p.isMacro = false) {args : List Value}
    {frame : FrameId} {before : Store} {own : Nat}
    (unrefused : UnrefusedCall own (.procedure p) args frame before) (value : Value)
    (after : Store) :
    (∀ budget, Unrefused budget (quotedApplication p args) frame before →
      (Evaluates budget (quotedApplication p args) frame before value after ↔
        Calls own (.procedure p) args frame before value after)) ∧
    ∀ budget, ∀ k ≤ args.length, ∀ last,
      (last = .list (args.drop k) ∨ last = .nil ∧ k = args.length) →
      UnrefusedCall budget (.procedure ⟨.native .apply, false⟩)
        (.procedure p :: (args.take k ++ [last])) frame before →
      (Calls budget (.procedure ⟨.native .apply, false⟩)
          (.procedure p :: (args.take k ++ [last])) frame before value after ↔
        Calls own (.procedure p) args frame before value after) := by
  constructor
  · intro budget granted
    -- Both runs are taken where there is more room than either of them has.
    rw [← granted.evaluates_iff (by omega : budget ≤ own + budget + 2),
      evaluates_quotedApplication_iff function]
    exact unrefused.calls_iff (by omega)
  · intro budget k _ last listed granted
    have listed : last = .list (args.drop k) ∨ last = .nil ∧ args.drop k = [] :=
      listed.imp_right fun ⟨empty, all⟩ => ⟨empty, List.drop_of_length_le all.ge⟩
    rw [← granted.calls_iff (Nat.le_add_left budget own), calls_apply_iff listed,
      List.take_append_drop]
    exact unrefused.calls_iff (Nat.le_add_right own budget)

/-- Gives the list of its arguments, of which it wants at least one. -/
private def collector : Procedure Value where
  callable := .closure ⟨["x", "&", "rest"], Keyword.quasiquote.form [.list [
    .list [.symbol "unquote", .symbol "x"], .list [.symbol "splice-unquote", .symbol "rest"]]],
    0, none⟩
  isMacro := false

private def collected : List Value :=
  [.error (.notFound "y"), .nil, .list [.bool true]]

/-- The arguments of `apply` with the first of these by itself. -/
private def spreadCollected : List Value :=
  [.procedure collector, .error (.notFound "y"), .list [.nil, .list [.bool true]]]

private def emptyStore : Store :=
  ⟨#[⟨none, [], [], 0⟩], #[], #[]⟩

private def collectedStore : Store :=
  ⟨#[⟨none, [], [], 0⟩, ⟨some 0, [("rest", .list [.nil, .list [.bool true]]),
    ("x", .error (.notFound "y"))], [], 0⟩], #[], #[]⟩

theorem calls_iff_applied_collector :
    collector.isMacro = false ∧ UnrefusedCall 2 (.procedure collector) collected 0 emptyStore ∧
      Unrefused 2 (quotedApplication collector collected) 0 emptyStore ∧
      UnrefusedCall 2 (.procedure ⟨.native .apply, false⟩) spreadCollected 0 emptyStore ∧
      Evaluates 2 (quotedApplication collector collected) 0 emptyStore (.list collected)
        collectedStore ∧
      Calls 2 (.procedure ⟨.native .apply, false⟩) spreadCollected 0 emptyStore (.list collected)
        collectedStore := by
  have direct : UnrefusedCall 2 (.procedure collector) collected 0 emptyStore :=
    @State.not_refused_of_haltsUnrefused 30 _ (by decide)
  have application : Unrefused 2 (quotedApplication collector collected) 0 emptyStore :=
    ⟨1, rfl, @State.not_refused_of_haltsUnrefused 30 _ (by decide)⟩
  have spread : UnrefusedCall 2 (.procedure ⟨.native .apply, false⟩) spreadCollected 0 emptyStore :=
    @State.not_refused_of_haltsUnrefused 30 _ (by decide)
  have called : Calls 2 (.procedure collector) collected 0 emptyStore (.list collected)
      collectedStore := ⟨30, rfl⟩
  have agree := calls_iff_applied rfl direct (.list collected) collectedStore
  exact ⟨rfl, direct, application, spread, (agree.1 2 application).mpr called,
    (agree.2 2 1 (by decide) _ (.inl rfl) spread).mpr called⟩

end Lisp
