/-!
# Binary fractions and doubles

A finite 64-bit float is a sign and a magnitude `mantissa · 2 ^ exponent`. This module takes a
float apart into these and builds the float nearest to a given fraction, a tie going to the even
mantissa. Both directions are exact natural-number arithmetic.
-/

set_option autoImplicit false

namespace Lisp.Number

/-- The number `mantissa · 2 ^ exponent`. -/
structure Binary where
  mantissa : Nat
  exponent : Int
  deriving DecidableEq, Repr

/-- The exponent of the least positive float, `2 ^ (-1074)`. -/
def leastExponent : Int := -1074

/-- The number of values of the stored part of a mantissa. -/
def mantissaSpan : Nat := Nat.pow 2 52

def signBit : Nat := Nat.pow 2 63

def infinityBits : Nat := 2047 * mantissaSpan

/-- Whether the sign bit is set, which tells `-0` from `0`. -/
def isNegative (x : Float) : Bool :=
  signBit ≤ x.toBits.toNat

def magnitudeBits (x : Float) : Nat :=
  x.toBits.toNat % signBit

/-- The magnitude of a finite float; `none` for the infinities and for a NaN. -/
def magnitude? (x : Float) : Option Binary :=
  let field := magnitudeBits x / mantissaSpan
  let fraction := magnitudeBits x % mantissaSpan
  if field = 2047 then none
  else if field = 0 then some ⟨fraction, leastExponent⟩
  else some ⟨mantissaSpan + fraction, leastExponent + field - 1⟩

def isFinite (x : Float) : Bool :=
  (magnitude? x).isSome

/-- The fraction `numerator / denominator · 2 ^ (-exponent)` as a numerator and a denominator. -/
def scaled (numerator denominator : Nat) (exponent : Int) : Nat × Nat :=
  if 0 ≤ exponent then (numerator, denominator * Nat.pow 2 exponent.toNat)
  else (numerator * Nat.pow 2 (-exponent).toNat, denominator)

/-- The integer nearest to a fraction, a tie going to the even one. -/
def roundHalfEven (numerator denominator : Nat) : Nat :=
  let quotient := numerator / denominator
  let twice := 2 * (numerator % denominator)
  if twice < denominator then quotient
  else if denominator < twice then quotient + 1
  else if quotient % 2 = 0 then quotient
  else quotient + 1

/-- The exponent at which a positive fraction has a mantissa of 53 bits, or the least exponent
when that is greater. -/
def targetExponent (numerator denominator : Nat) : Int :=
  let estimate : Int := numerator.log2 - denominator.log2
  let (n, d) := scaled numerator denominator estimate
  max leastExponent (if d ≤ n then estimate - 52 else estimate - 53)

/-- The magnitude bits of the float nearest to `numerator / denominator`. Exponent and mantissa
lie side by side in the bits, so a mantissa that rounds up to `2 ^ 53` carries into the exponent
by itself. -/
def nearestBits (numerator denominator : Nat) : Nat :=
  if numerator = 0 then 0
  else
    let exponent := targetExponent numerator denominator
    let (n, d) := scaled numerator denominator exponent
    min infinityBits ((exponent - leastExponent).toNat * mantissaSpan + roundHalfEven n d)

def ofMagnitudeBits (negative : Bool) (bits : Nat) : Float :=
  .ofBits (UInt64.ofNat (if negative then signBit + bits else bits))

/-- The float nearest to `numerator / denominator`, with the given sign. -/
def nearest (negative : Bool) (numerator denominator : Nat) : Float :=
  ofMagnitudeBits negative (nearestBits numerator denominator)

/-- The natural number that a float is, if it is one; `-0` counts as zero. -/
def natural? (x : Float) : Option Nat :=
  match magnitude? x with
  | none => none
  | some ⟨mantissa, exponent⟩ =>
    if mantissa = 0 then some 0
    else if isNegative x then none
    else
      let (numerator, denominator) := scaled mantissa 1 (-exponent)
      if numerator % denominator = 0 then some (numerator / denominator) else none

/-- The remainder of a division that truncates toward zero, computed exactly; it has the sign of
the dividend. An infinite dividend, a zero divisor or a NaN gives a NaN, and an infinite divisor
leaves a finite dividend as it is. -/
def remainder (dividend divisor : Float) : Float :=
  match magnitude? dividend, magnitude? divisor with
  | some ⟨m, p⟩, some ⟨n, q⟩ =>
    let least := min p q
    let a := m * Nat.pow 2 (p - least).toNat
    let b := n * Nat.pow 2 (q - least).toNat
    if b = 0 then 0.0 / 0.0
    else
      let (n, d) := scaled (a % b) 1 (-least)
      nearest (isNegative dividend) n d
  | some _, none => if divisor.isNaN then divisor else dividend
  | none, _ => 0.0 / 0.0

end Lisp.Number
