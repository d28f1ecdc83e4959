import Lisp.Native.Reply
import Mathlib.Data.List.Basic

/-! Arguments of arithmetic and comparison. The first unsuitable argument settles the error, and
suitable ones are combined from left to right. -/

set_option autoImplicit false

namespace Lisp.Native

/-- How many arguments an operation of arithmetic or comparison takes at least. -/
def leastCount? : Native → Option Nat
  | add | multiply => some 0
  | subtract | divide => some 1
  | equal | less | lessEqual | greater | greaterEqual => some 2
  | _ => none

/-- The argument in place `i` is unsuitable, and `cause` tells why. All arguments of a division are
divisors but the first of several. -/
inductive Offends (operation : Native) (args : List Value) (i : Nat) : EvalError → Prop where
  | error {cause : EvalError} (present : args[i]? = some (.error cause)) :
      Offends operation args i cause
  | mismatch {v : Value} (present : args[i]? = some v) (noNumber : ∀ x, v ≠ .number x)
      (noError : ∀ cause, v ≠ .error cause) :
      Offends operation args i (.typeMismatch operation.name "number" v.typeName)
  | zero {x : Float} (present : args[i]? = some (.number x)) (zero : (x == 0.0) = true)
      (division : operation = divide) (divisor : i ≠ 0 ∨ args.length = 1) :
      Offends operation args i (.divisionByZero operation.name)

inductive Compares : Native → (Float → Float → Bool) → Prop where
  | equal : Compares equal fun x y => x == y
  | less : Compares less fun x y => x < y
  | lessEqual : Compares lessEqual fun x y => x ≤ y
  | greater : Compares greater fun x y => x > y
  | greaterEqual : Compares greaterEqual fun x y => x ≥ y

/-- The value of an operation for numbers. -/
inductive Computes : Native → List Float → Value → Prop where
  | sum (xs : List Float) : Computes add xs (.number (xs.foldl (· + ·) 0.0))
  | product (xs : List Float) : Computes multiply xs (.number (xs.foldl (· * ·) 1.0))
  | negation (x : Float) : Computes subtract [x] (.number (-x))
  | difference (x y : Float) (xs : List Float) :
      Computes subtract (x :: y :: xs) (.number ((y :: xs).foldl (· - ·) x))
  | reciprocal (x : Float) : Computes divide [x] (.number (1.0 / x))
  | quotient (x y : Float) (xs : List Float) :
      Computes divide (x :: y :: xs) (.number ((y :: xs).foldl (· / ·) x))
  | comparison {operation : Native} {holds : Float → Float → Bool} {xs : List Float}
      {result : Bool} (compares : Compares operation holds)
      (adjacent : result = true ↔ xs.IsChain fun x y => holds x y = true) :
      Computes operation xs (.bool result)

/-! ## Checks of arguments -/

/-- The check that the argument in place `i` of `count` has to pass. -/
def argumentAt (operation : Native) (count i : Nat) : Value → Except EvalError Float :=
  if operation = divide ∧ (i ≠ 0 ∨ count = 1) then divisorArgument operation
  else numberArgument operation

def checked (operation : Native) (args : List Value) : List (Except EvalError Float) :=
  args.mapIdx (argumentAt operation args.length)

/-- The numbers of checks that were passed, or the first failure. -/
def collect : List (Except EvalError Float) → Except EvalError (List Float)
  | [] => .ok []
  | .error cause :: _ => .error cause
  | .ok x :: rest => (collect rest).map (x :: ·)

theorem numberArgument_ok {operation : Native} {v : Value} {x : Float}
    (passed : numberArgument operation v = .ok x) : v = .number x := by
  cases v with
  | number y =>
      cases passed
      rfl
  | _ => cases passed

theorem divisorArgument_ok {operation : Native} {v : Value} {x : Float}
    (passed : divisorArgument operation v = .ok x) : v = .number x := by
  rw [divisorArgument] at passed
  split at passed
  · cases passed
  · next y number =>
      split at passed
      · cases passed
      · cases passed
        exact numberArgument_ok number

theorem argumentAt_ok {operation : Native} {count i : Nat} {v : Value} {x : Float}
    (passed : argumentAt operation count i v = .ok x) : v = .number x := by
  rw [argumentAt] at passed
  split at passed
  · exact divisorArgument_ok passed
  · exact numberArgument_ok passed

theorem argumentAt_error (operation : Native) (count i : Nat) (cause : EvalError) :
    argumentAt operation count i (.error cause) = .error cause := by
  rw [argumentAt]
  split <;> rfl

theorem argumentAt_mismatch {v : Value} (noNumber : ∀ x, v ≠ .number x)
    (noError : ∀ cause, v ≠ .error cause) (operation : Native) (count i : Nat) :
    argumentAt operation count i v = .error (v.mismatch operation.name "number") := by
  have fails : numberArgument operation v = .error (v.mismatch operation.name "number") := by
    cases v with
    | number x => exact absurd rfl (noNumber x)
    | error cause => exact absurd rfl (noError cause)
    | _ => rfl
  rw [argumentAt]
  split
  · simp only [divisorArgument, fails]
  · exact fails

theorem offends_iff {operation : Native} {args : List Value} {i : Nat} {cause : EvalError} :
    Offends operation args i cause ↔ (checked operation args)[i]? = some (.error cause) := by
  rw [checked, List.getElem?_mapIdx, Option.map_eq_some_iff]
  constructor
  · intro offends
    cases offends with
    | error present => exact ⟨_, present, argumentAt_error operation _ i cause⟩
    | mismatch present noNumber noError =>
        exact ⟨_, present, argumentAt_mismatch noNumber noError operation _ i⟩
    | zero present zero division divisor =>
        refine ⟨_, present, ?_⟩
        rw [argumentAt, if_pos ⟨division, divisor⟩]
        simp only [divisorArgument, numberArgument, zero, if_true]
  · intro failed
    obtain ⟨v, present, failed⟩ := failed
    cases v with
    | number x =>
        rw [argumentAt] at failed
        split at failed
        · next divisor =>
            simp only [divisorArgument, numberArgument] at failed
            split at failed
            · next zero =>
                cases failed
                exact .zero present zero divisor.1 divisor.2
            · cases failed
        · cases failed
    | error other =>
        rw [argumentAt_error] at failed
        cases failed
        exact .error present
    | _ =>
        -- All other values fail alike, and neither their place nor the operation matters.
        cases (argumentAt_mismatch (by nofun) (by nofun) operation _ i).symm.trans failed
        exact .mismatch present nofun nofun

theorem collect_eq_error {results : List (Except EvalError Float)} {i : Nat} {cause : EvalError}
    (failed : results[i]? = some (.error cause))
    (first : ∀ j < i, ∀ other, results[j]? ≠ some (.error other)) :
    collect results = .error cause := by
  induction results generalizing i with
  | nil => cases failed
  | cons result rest ih =>
      cases i with
      | zero =>
          cases failed
          rfl
      | succ i =>
          cases result with
          | error other => exact absurd rfl (first 0 (Nat.succ_pos i) other)
          | ok x =>
              have later := ih failed fun j less => first (j + 1) (Nat.succ_lt_succ less)
              rw [collect, later]
              rfl

theorem exists_collect_eq_ok {results : List (Except EvalError Float)}
    (passed : ∀ (i : Nat) (cause : EvalError), results[i]? ≠ some (.error cause)) :
    ∃ xs, results = xs.map .ok ∧ collect results = .ok xs := by
  induction results with
  | nil => exact ⟨[], rfl, rfl⟩
  | cons result rest ih =>
      cases result with
      | error cause => exact absurd rfl (passed 0 cause)
      | ok x =>
          obtain ⟨xs, rfl, collected⟩ := ih fun i => passed (i + 1)
          exact ⟨x :: xs, rfl, by rw [collect, collected]; rfl⟩

/-- Only numbers pass. -/
theorem numbers_of_checked {operation : Native} {args : List Value} {xs : List Float}
    (passed : checked operation args = xs.map .ok) : args = xs.map .number := by
  have lengths : args.length = xs.length := by
    simpa [checked] using congrArg List.length passed
  refine List.ext_getElem (by simpa using lengths) fun i inside inside' => ?_
  have same := List.getElem_of_eq passed (i := i) (by simpa [checked] using inside)
  simp only [checked, List.getElem_mapIdx, List.getElem_map] at same
  rw [argumentAt_ok same, List.getElem_map]

/-! ## Operations as collections -/

theorem foldNumbers_eq (check : Value → Except EvalError Float) (combine : Float → Float → Float)
    (start : Float) (args : List Value) :
    foldNumbers check combine start args =
      (collect (args.map check)).map (List.foldl combine start) := by
  induction args generalizing start with
  | nil => rfl
  | cons v rest ih =>
      rw [foldNumbers, List.map_cons]
      cases check v with
      | error cause => rfl
      | ok x =>
          simp only [collect, ih]
          cases collect (rest.map check) <;> rfl

theorem numberArguments_eq (operation : Native) (args : List Value) :
    numberArguments operation args = collect (args.map (numberArgument operation)) := by
  induction args with
  | nil => rfl
  | cons v rest ih =>
      rw [numberArguments, List.map_cons]
      cases numberArgument operation v with
      | error cause => rfl
      | ok x => simp only [collect, ih]

theorem adjacent_iff (holds : Float → Float → Bool) (xs : List Float) :
    adjacent holds xs = true ↔ xs.IsChain fun x y => holds x y = true := by
  induction xs using adjacent.induct with
  | case1 x y rest ih => rw [adjacent, Bool.and_eq_true, List.isChain_cons_cons, ih]
  | case2 xs short =>
      rcases xs with _ | ⟨x, _ | ⟨y, rest⟩⟩
      · simp [adjacent]
      · simp [adjacent]
      · exact absurd rfl (short x y rest)

theorem checked_eq_map {operation : Native} (noDivision : operation ≠ divide) (args : List Value) :
    checked operation args = args.map (numberArgument operation) := by
  refine List.ext_getElem (by simp [checked]) fun i inside inside' => ?_
  simp [checked, argumentAt, noDivision]

theorem checked_quotient (v w : Value) (rest : List Value) :
    checked divide (v :: w :: rest) =
      numberArgument divide v :: (w :: rest).map (divisorArgument divide) := by
  refine List.ext_getElem (by simp [checked]) fun i inside inside' => ?_
  cases i with
  | zero => simp [checked, argumentAt]
  | succ i =>
      simp only [checked, List.getElem_mapIdx, List.getElem_cons_succ, List.getElem_map]
      simp [argumentAt]

/-- The operation checks its arguments from left to right, and has the value that it should for the
numbers. -/
def Collects (operation : Native) (args : List Value) : Prop :=
  ∃ value : List Float → Value, (∀ xs, xs.length = args.length → Computes operation xs (value xs)) ∧
    operation.reply args = .ofAnswer ((collect (checked operation args)).map value)

theorem collects_fold {operation : Native} {combine : Float → Float → Float} {start : Float}
    {args : List Value} (noDivision : operation ≠ divide)
    (replied : operation.reply args =
      .ofAnswer ((foldNumbers (numberArgument operation) combine start args).map .number))
    (computes : ∀ xs, Computes operation xs (.number (xs.foldl combine start))) :
    Collects operation args := by
  refine ⟨_, fun xs _ => computes xs, ?_⟩
  rw [replied, checked_eq_map noDivision, foldNumbers_eq]
  cases collect (args.map (numberArgument operation)) <;> rfl

theorem collects_single {operation : Native} {combine : Float → Float} {v : Value}
    (replied : operation.reply [v] =
      .ofAnswer ((argumentAt operation 1 0 v).map fun x => .number (combine x)))
    (computes : ∀ x, Computes operation [x] (.number (combine x))) : Collects operation [v] := by
  refine ⟨fun xs => .number (combine (xs.headD 0.0)), fun xs single => ?_, ?_⟩
  · obtain ⟨x, rfl⟩ := List.length_eq_one_iff.mp single
    exact computes x
  · have alone : checked operation [v] = [argumentAt operation 1 0 v] := rfl
    rw [replied, alone]
    cases argumentAt operation 1 0 v <;> rfl

/-- The combination of the others starts with the first number. -/
theorem collects_foldFrom {operation : Native} {check : Value → Except EvalError Float}
    {combine : Float → Float → Float} {v w : Value} {rest : List Value}
    (replied : operation.reply (v :: w :: rest) = .ofAnswer (
      match numberArgument operation v with
      | .error cause => .error cause
      | .ok x => (foldNumbers check combine x (w :: rest)).map .number))
    (divided : checked operation (v :: w :: rest) =
      numberArgument operation v :: (w :: rest).map check)
    (computes : ∀ x y more,
      Computes operation (x :: y :: more) (.number ((y :: more).foldl combine x))) :
    Collects operation (v :: w :: rest) := by
  refine ⟨fun xs => .number (xs.tail.foldl combine (xs.headD 0.0)), fun xs several => ?_, ?_⟩
  · rcases xs with _ | ⟨x, _ | ⟨y, more⟩⟩
    · cases several
    · cases several
    · exact computes x y more
  · rw [replied, divided]
    cases numberArgument operation v with
    | error cause => rfl
    | ok x =>
        simp only [foldNumbers_eq, collect]
        cases collect ((w :: rest).map check) <;> rfl

theorem collects_difference {args : List Value} (enough : 1 ≤ args.length) :
    Collects subtract args := by
  match args with
  | [] => cases enough
  | [v] => exact collects_single rfl .negation
  | v :: w :: rest => exact collects_foldFrom rfl (checked_eq_map (by decide) _) .difference

theorem collects_quotient {args : List Value} (enough : 1 ≤ args.length) :
    Collects divide args := by
  match args with
  | [] => cases enough
  | [v] =>
      -- The only divisor is one that the number one is divided by.
      refine collects_single ?_ .reciprocal
      have divisor : argumentAt divide 1 0 v = divisorArgument divide v := rfl
      simp only [reply, quotient, foldNumbers, divisor]
      cases divisorArgument divide v <;> rfl
  | v :: w :: rest => exact collects_foldFrom rfl (checked_quotient v w rest) .quotient

theorem collects_comparison {operation : Native} {holds : Float → Float → Bool}
    (compares : Compares operation holds) {args : List Value} (enough : 2 ≤ args.length) :
    Collects operation args := by
  refine ⟨_, fun xs _ => .comparison compares (adjacent_iff holds xs), ?_⟩
  have compared : operation.reply args = .ofAnswer (comparison operation holds args) := by
    cases compares <;> rfl
  have noDivision : operation ≠ divide := by cases compares <;> decide
  rw [compared, comparison, if_neg (by omega), numberArguments_eq, checked_eq_map noDivision]

theorem collects {operation : Native} {least : Nat} (numeric : operation.leastCount? = some least)
    {args : List Value} (enough : least ≤ args.length) : Collects operation args := by
  cases operation with
  | add => exact collects_fold (by decide) rfl .sum
  | multiply => exact collects_fold (by decide) rfl .product
  | subtract =>
      cases numeric
      exact collects_difference enough
  | divide =>
      cases numeric
      exact collects_quotient enough
  | equal | less | lessEqual | greater | greaterEqual =>
      cases numeric
      exact collects_comparison (by constructor) enough
  | _ => cases numeric

theorem reply_of_few {operation : Native} {least : Nat} (numeric : operation.leastCount? = some least)
    {args : List Value} (few : args.length < least) :
    operation.reply args = .value (.error (.arity operation.name (.atLeast least) args.length)) := by
  cases operation with
  | add | multiply =>
      cases numeric
      cases few
  | subtract | divide =>
      cases numeric
      obtain rfl := List.length_eq_zero_iff.mp (Nat.lt_one_iff.mp few)
      rfl
  | equal | less | lessEqual | greater | greaterEqual =>
      cases numeric
      simp only [reply, comparison, if_pos few]
      rfl
  | _ => cases numeric

/-- An operation of arithmetic or comparison with enough arguments fails for its first unsuitable
argument, whatever the others are. Without unsuitable arguments all of them are numbers, and these are
combined from left to right, or each is compared with the next one. -/
theorem reply_firstOffence {operation : Native} {least : Nat}
    (numeric : operation.leastCount? = some least) (args : List Value) :
    (args.length < least → operation.reply args =
      .value (.error (.arity operation.name (.atLeast least) args.length))) ∧
    (least ≤ args.length →
      (∀ i cause, Offends operation args i cause →
        (∀ j < i, ∀ other, ¬ Offends operation args j other) →
          operation.reply args = .value (.error cause)) ∧
      ((∀ i cause, ¬ Offends operation args i cause) →
        ∃ xs value, args = xs.map .number ∧ Computes operation xs value ∧
          operation.reply args = .value value)) := by
  refine ⟨reply_of_few numeric, fun enough => ?_⟩
  obtain ⟨combined, computes, replied⟩ := collects numeric enough
  simp only [offends_iff]
  refine ⟨fun i cause offends first => ?_, fun suitable => ?_⟩
  · rw [replied, collect_eq_error offends first]
    rfl
  · obtain ⟨xs, passed, collected⟩ := exists_collect_eq_ok suitable
    have numbers := numbers_of_checked passed
    refine ⟨xs, combined xs, numbers, computes xs (by rw [numbers, List.length_map]), ?_⟩
    rw [replied, collected]
    rfl

/-- The first zero is no divisor, and the last one does not count. -/
private def faultyDivision : List Value :=
  [.number 0.0, .error .depthExceeded, .number 0.0]

theorem reply_firstOffence_division :
    divide.leastCount? = some 1 ∧ Offends divide faultyDivision 1 .depthExceeded ∧
      divide.reply faultyDivision = .value (.error .depthExceeded) ∧
      divide.reply [.number 0.0, .number 1.0] = .value (.number (0.0 / 1.0)) := by
  have offends : Offends divide faultyDivision 1 .depthExceeded := .error rfl
  have first : ∀ j < 1, ∀ other, ¬ Offends divide faultyDivision j other := by
    intro j less other before
    obtain rfl := Nat.lt_one_iff.mp less
    have passed : (checked divide faultyDivision)[0]? = some (.ok 0.0) := rfl
    rw [offends_iff, passed] at before
    cases before
  have suitable : ∀ i cause, ¬ Offends divide [.number 0.0, .number 1.0] i cause := by
    intro i cause unsuitable
    have passed : checked divide [.number 0.0, .number 1.0] = [0.0, 1.0].map .ok := rfl
    rw [offends_iff, passed, List.getElem?_map, Option.map_eq_some_iff] at unsuitable
    obtain ⟨x, -, failed⟩ := unsuitable
    cases failed
  refine ⟨rfl, offends, ((reply_firstOffence rfl faultyDivision).2 (by decide)).1 1 _ offends first, ?_⟩
  obtain ⟨xs, value, same, computes, replied⟩ :=
    ((reply_firstOffence rfl [.number 0.0, .number 1.0]).2 (by decide)).2 suitable
  obtain rfl : [0.0, 1.0] = xs := List.map_injective_iff.mpr (fun _ _ => Value.number.inj) same
  cases computes with
  | quotient => exact replied
  | comparison compares => cases compares

end Lisp.Native
