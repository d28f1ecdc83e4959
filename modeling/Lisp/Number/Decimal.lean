import Lisp.Number.Binary

/-!
# Decimal text of numbers

How a number is written and how number text is read. A finite number is written with the fewest
digits that lead back to it, always in positional notation; of several such decimals the nearest
is taken, and of two equally near the greater. Reading takes an optional sign, digits with at most
one point and an optional exponent, and gives the nearest float.
-/

set_option autoImplicit false

namespace Lisp.Number

/-- The number `coefficient · 10 ^ exponent`. -/
structure Decimal where
  coefficient : Nat
  exponent : Int
  deriving DecidableEq, Repr

namespace Decimal

def ratio (d : Decimal) : Nat × Nat :=
  if 0 ≤ d.exponent then (d.coefficient * Nat.pow 10 d.exponent.toNat, 1)
  else (d.coefficient, Nat.pow 10 (-d.exponent).toNat)

/-- The decimal digits of a number, most significant first. -/
def digits (n : Nat) : List Char :=
  Nat.toDigits 10 n

def digitValue (c : Char) : Nat :=
  c.toNat - '0'.toNat

def ofDigits (cs : List Char) : Nat :=
  cs.foldl (fun acc c => 10 * acc + digitValue c) 0

/-- Positional notation: no exponent, and no point in a whole number. -/
def positional (d : Decimal) : List Char :=
  let ds := digits d.coefficient
  if 0 ≤ d.exponent then
    if d.coefficient = 0 then ['0'] else ds ++ List.replicate d.exponent.toNat '0'
  else
    let places := (-d.exponent).toNat
    if places < ds.length then
      ds.take (ds.length - places) ++ '.' :: ds.drop (ds.length - places)
    else
      '0' :: '.' :: (List.replicate (places - ds.length) '0' ++ ds)

end Decimal

/-- The reals that round to a float, as multiples of a quarter of its last place: the float itself
is `value`, and `low` and `high` lie half a place away, where a tie would be broken. They belong
to the interval when the mantissa is even. Below a power of two the places are half as wide. -/
structure Interval where
  value : Nat
  low : Nat
  high : Nat
  closed : Bool
  deriving DecidableEq, Repr

namespace Interval

def ofBinary (b : Binary) : Interval where
  value := 4 * b.mantissa
  low := if b.mantissa = mantissaSpan && leastExponent < b.exponent
    then 4 * b.mantissa - 1 else 4 * b.mantissa - 2
  high := 4 * b.mantissa + 2
  closed := b.mantissa % 2 = 0

/-- Whether `n / d` lies in the interval, its ends measured in units of `u / d`. -/
def holds (i : Interval) (u n : Nat) : Bool :=
  if i.closed then i.low * u ≤ n && n ≤ i.high * u
  else i.low * u < n && n < i.high * u

end Interval

/-- The multiple of `10 ^ place` that lies in the rounding interval of `b` and is nearest to it,
the greater one of two equally near. -/
def candidate? (b : Binary) (place : Int) : Option Decimal :=
  let interval := Interval.ofBinary b
  let exponent := b.exponent - 2
  -- One quarter of the last place is `unit`, and `10 ^ place` is `step`, on a common grid.
  let unit := Nat.pow 2 exponent.toNat * Nat.pow 10 (-place).toNat
  let step := Nat.pow 10 place.toNat * Nat.pow 2 (-exponent).toNat
  let value := interval.value * unit
  let below := value / step
  let belowIn := interval.holds unit (below * step)
  let aboveIn := interval.holds unit ((below + 1) * step)
  let belowNearer := 2 * value < (2 * below + 1) * step
  if belowIn && (belowNearer || !aboveIn) then some ⟨below, place⟩
  else if aboveIn then some ⟨below + 1, place⟩
  else none

/-- The first of the places `place`, `place - 1`, … with a candidate, at most `count` of them. -/
def firstCandidate? (b : Binary) : Nat → Int → Option Decimal
  | 0, _ => none
  | count + 1, place =>
    match candidate? b place with
    | some d => some d
    | none => firstCandidate? b count (place - 1)

/-- A binary fraction as a decimal with the same value. -/
def exactDecimal (b : Binary) : Decimal :=
  if 0 ≤ b.exponent then ⟨b.mantissa * Nat.pow 2 b.exponent.toNat, 0⟩
  else ⟨b.mantissa * Nat.pow 5 (-b.exponent).toNat, b.exponent⟩

/-- The greatest place that a digit of a positive float can have, with one to spare. -/
def greatestPlace (b : Binary) : Int :=
  (b.exponent + b.mantissa.log2 + 1) * 30103 / 100000 + 1

/-- The shortest decimal that leads back to a float, and of these the nearest. Grids finer than
that of the exact value need not be tried. -/
def shortest (b : Binary) : Decimal :=
  if b.mantissa = 0 then ⟨0, 0⟩
  else
    let place := greatestPlace b
    (firstCandidate? b (place - min b.exponent 0).toNat place).getD (exactDecimal b)

def toText (x : Float) : String :=
  if x.isNaN then "NaN"
  else
    let sign := if isNegative x then "-" else ""
    match magnitude? x with
    | none => sign ++ "inf"
    | some b => sign ++ String.ofList (shortest b).positional

/-! ## Reading -/

/-- The float nearest to a decimal. A value of 311 digits or more overflows and one below
`10 ^ (-330)` vanishes, so huge exponents are never multiplied out. -/
def ofDecimal (negative : Bool) (d : Decimal) : Float :=
  let size := (Decimal.digits d.coefficient).length + d.exponent
  if d.coefficient = 0 then ofMagnitudeBits negative 0
  else if 310 < size then ofMagnitudeBits negative infinityBits
  else if size < -330 then ofMagnitudeBits negative 0
  else
    let (n, m) := d.ratio
    nearest negative n m

def splitSign : List Char → Bool × List Char
  | '-' :: rest => (true, rest)
  | '+' :: rest => (false, rest)
  | rest => (false, rest)

/-- The magnitude at which the digits of an exponent cease to count. -/
def exponentLimit : Nat := 65536

/-- The number that the digits of an exponent denote. They count up to the one with which the
number reaches the limit, so `655370` is read as `65537`. -/
def ofExponentDigits (cs : List Char) : Nat :=
  cs.foldl (fun acc c => if acc < exponentLimit then 10 * acc + Decimal.digitValue c else acc) 0

/-- The exponent part of number text: nothing, or a letter `e`, an optional sign and digits. -/
def readExponent? : List Char → Option Int
  | [] => some 0
  | c :: rest =>
    if c = 'e' || c = 'E' then
      let (negative, ds) := splitSign rest
      if ds.isEmpty || !ds.all Char.isDigit then none
      else some (if negative then -(ofExponentDigits ds : Int) else ofExponentDigits ds)
    else none

/-- Digits with at most one point, at least one digit, and an optional exponent. -/
def readDecimal? (cs : List Char) : Option Decimal :=
  let whole := cs.takeWhile Char.isDigit
  let (places, rest) :=
    match cs.dropWhile Char.isDigit with
    | '.' :: more => (more.takeWhile Char.isDigit, more.dropWhile Char.isDigit)
    | more => ([], more)
  if whole.isEmpty && places.isEmpty then none
  else
    (readExponent? rest).map fun e =>
      ⟨Decimal.ofDigits (whole ++ places), e - places.length⟩

/-- Reads number text; the words for infinity and for a NaN are read in any case. -/
def ofText? (text : String) : Option Float :=
  let (negative, rest) := splitSign text.toList
  let word := rest.map Char.toLower
  if word = "inf".toList || word = "infinity".toList then
    some (ofMagnitudeBits negative infinityBits)
  else if word = "nan".toList then some (0.0 / 0.0)
  else (readDecimal? rest).map (ofDecimal negative)

end Lisp.Number
