import Lisp.Number.Decimal
import Lisp.Value

/-!
# Arithmetic

The operations on numbers. Arguments are looked at from left to right, and the first one that is
unsuitable decides the error: an error value is passed on as it is.
-/

set_option autoImplicit false

namespace Lisp.Native

/-- The outcome of an operation that has no effects. -/
abbrev Answer := Except EvalError Value

/-- The number that an argument of `operation` has to be. -/
def numberArgument (operation : Native) : Value → Except EvalError Float
  | .number x => .ok x
  | .error cause => .error cause
  | v => .error (v.mismatch operation.name "number")

/-- The number that a divisor has to be: any but zero. -/
def divisorArgument (operation : Native) (v : Value) : Except EvalError Float :=
  match numberArgument operation v with
  | .error cause => .error cause
  | .ok x => if x == 0.0 then .error (.divisionByZero operation.name) else .ok x

/-- Combines the arguments from left to right, each checked before it is used. -/
def foldNumbers (check : Value → Except EvalError Float) (combine : Float → Float → Float) :
    Float → List Value → Except EvalError Float
  | acc, [] => .ok acc
  | acc, v :: rest =>
    match check v with
    | .error cause => .error cause
    | .ok x => foldNumbers check combine (combine acc x) rest

def sum (args : List Value) : Answer :=
  (foldNumbers (numberArgument add) (· + ·) 0.0 args).map .number

def product (args : List Value) : Answer :=
  (foldNumbers (numberArgument multiply) (· * ·) 1.0 args).map .number

/-- The first argument less all others; a single argument is negated. -/
def difference : List Value → Answer
  | [] => .error (.arity subtract.name (.atLeast 1) 0)
  | [v] => (numberArgument subtract v).map fun x => .number (-x)
  | v :: rest =>
    match numberArgument subtract v with
    | .error cause => .error cause
    | .ok x => (foldNumbers (numberArgument subtract) (· - ·) x rest).map .number

/-- The first argument divided by all others; a single argument is inverted. -/
def quotient : List Value → Answer
  | [] => .error (.arity divide.name (.atLeast 1) 0)
  | [v] => (foldNumbers (divisorArgument divide) (· / ·) 1.0 [v]).map .number
  | v :: rest =>
    match numberArgument divide v with
    | .error cause => .error cause
    | .ok x => (foldNumbers (divisorArgument divide) (· / ·) x rest).map .number

def modulus : List Value → Answer
  | [v, w] =>
    match numberArgument remainder v with
    | .error cause => .error cause
    | .ok x => (divisorArgument remainder w).map fun y => .number (Number.remainder x y)
  | args => .error (.arity remainder.name (.just 2) args.length)

def numberArguments (operation : Native) : List Value → Except EvalError (List Float)
  | [] => .ok []
  | v :: rest =>
    match numberArgument operation v with
    | .error cause => .error cause
    | .ok x => (numberArguments operation rest).map (x :: ·)

/-- Whether every number and the next one satisfy a comparison. -/
def adjacent (holds : Float → Float → Bool) : List Float → Bool
  | x :: y :: rest => holds x y && adjacent holds (y :: rest)
  | _ => true

/-- Compares every argument with the next one. All have to be numbers, those after a failing
comparison too. -/
def comparison (operation : Native) (holds : Float → Float → Bool) (args : List Value) :
    Answer :=
  if args.length < 2 then .error (.arity operation.name (.atLeast 2) args.length)
  else (numberArguments operation args).map fun xs => .bool (adjacent holds xs)

end Lisp.Native
