import Lisp.Number.Decimal
import Lisp.Proofs.Number.Bits
import Mathlib.Data.Rat.Cast.Order
import Mathlib.Tactic.FieldSimp
import Mathlib.Tactic.Linarith
import Mathlib.Tactic.Positivity
import Mathlib.Tactic.NormNum

/-! Every fraction in the rounding interval of a float is rounded to that float. -/

set_option autoImplicit false

namespace Lisp.Number

/-! ## Scaling and rounding to integers -/

theorem scaled_pos (n : Nat) {d : Nat} (positive : 0 < d) (exponent : Int) :
    0 < (scaled n d exponent).2 := by
  rw [scaled]
  split
  · exact Nat.mul_pos positive (Nat.pow_pos (by decide))
  · exact positive

theorem pow_toNat {base : ℚ} {exponent : Int} (nonneg : 0 ≤ exponent) :
    base ^ exponent.toNat = base ^ exponent := by
  rw [← zpow_natCast, Int.toNat_of_nonneg nonneg]

theorem scaled_ratio (n d : Nat) (exponent : Int) :
    ((scaled n d exponent).1 : ℚ) / (scaled n d exponent).2 = n / d / 2 ^ exponent := by
  rw [scaled]
  split
  · next nonneg =>
      have power : ((Nat.pow 2 exponent.toNat : Nat) : ℚ) = 2 ^ exponent := by
        rw [Nat.pow_eq, Nat.cast_pow, Nat.cast_ofNat, pow_toNat nonneg]
      rw [Nat.cast_mul, power, div_div]
  · next negative =>
      have power : ((Nat.pow 2 (-exponent).toNat : Nat) : ℚ) = 2 ^ (-exponent) := by
        rw [Nat.pow_eq, Nat.cast_pow, Nat.cast_ofNat, pow_toNat (by omega)]
      rw [Nat.cast_mul, power, zpow_neg]
      ring

/-- A fraction that is nearer to an integer than to any other, or half-way between an even one and
another, is rounded to it. -/
theorem roundHalfEven_eq {n d k : Nat} (positive : 0 < d) (low : 2 * (k * d) ≤ 2 * n + d)
    (high : 2 * n ≤ 2 * (k * d) + d)
    (odd : k % 2 = 1 → 2 * (k * d) < 2 * n + d ∧ 2 * n < 2 * (k * d) + d) :
    roundHalfEven n d = k := by
  have below : n % d < d := Nat.mod_lt n positive
  have split : d * (n / d) + n % d = n := Nat.div_add_mod n d
  rw [roundHalfEven]
  generalize n / d = quotient at *
  generalize n % d = remainder at *
  have atMost : ¬ quotient + 2 ≤ k := by
    intro above
    have product : (quotient + 2) * d ≤ k * d := Nat.mul_le_mul_right d above
    rw [Nat.add_mul, Nat.mul_comm quotient d] at product
    omega
  have atLeast : ¬ k + 1 ≤ quotient := by
    intro less
    have product : (k + 1) * d ≤ quotient * d := Nat.mul_le_mul_right d less
    rw [Nat.add_mul, Nat.mul_comm quotient d] at product
    omega
  have near : k = quotient ∨ k = quotient + 1 := by omega
  rcases near with rfl | rfl
  · rw [Nat.mul_comm d k] at split
    split_ifs <;> omega
  · rw [Nat.add_mul, Nat.mul_comm quotient d] at low high odd
    split_ifs <;> omega

/-! ## The exponent of the nearest float -/

private theorem log2_bounds {n : Nat} (positive : 0 < n) :
    (2 : ℚ) ^ (n.log2 : Int) ≤ n ∧ (n : ℚ) < 2 ^ ((n.log2 : Int) + 1) := by
  constructor
  · rw [zpow_natCast]
    exact_mod_cast Nat.log2_self_le positive.ne'
  · rw [← Nat.cast_succ, zpow_natCast]
    exact_mod_cast Nat.lt_log2_self

/-- A positive fraction lies within a factor of two of the power of two estimated from the lengths
of its numerator and denominator. -/
private theorem estimate_bounds {n d : Nat} (numerator : 0 < n) (denominator : 0 < d) :
    (2 : ℚ) ^ ((n.log2 : Int) - d.log2 - 1) < n / d ∧
      (n : ℚ) / d < 2 ^ ((n.log2 : Int) - d.log2 + 1) := by
  obtain ⟨lowN, highN⟩ := log2_bounds numerator
  obtain ⟨lowD, highD⟩ := log2_bounds denominator
  have positive : (0 : ℚ) < d := by exact_mod_cast denominator
  constructor
  · rw [lt_div_iff₀ positive]
    calc (2 : ℚ) ^ ((n.log2 : Int) - d.log2 - 1) * d
        < 2 ^ ((n.log2 : Int) - d.log2 - 1) * 2 ^ ((d.log2 : Int) + 1) :=
          mul_lt_mul_of_pos_left highD (zpow_pos two_pos _)
      _ = 2 ^ (n.log2 : Int) := by
          rw [← zpow_add₀ two_ne_zero]
          congr 1
          omega
      _ ≤ n := lowN
  · rw [div_lt_iff₀ positive]
    calc (n : ℚ) < 2 ^ ((n.log2 : Int) + 1) := highN
      _ = 2 ^ ((n.log2 : Int) - d.log2 + 1) * 2 ^ (d.log2 : Int) := by
          rw [← zpow_add₀ two_ne_zero]
          congr 1
          omega
      _ ≤ 2 ^ ((n.log2 : Int) - d.log2 + 1) * d :=
          mul_le_mul_of_nonneg_left lowD (zpow_pos two_pos _).le

/-- The exponent of the nearest float puts a fraction below `2 ^ 53` places, and it is the least
that does so unless it is the least of all. -/
theorem targetExponent_spec {n d : Nat} (numerator : 0 < n) (denominator : 0 < d) :
    ∃ place : Int, targetExponent n d = max leastExponent place ∧
      (2 : ℚ) ^ (place + 52) ≤ n / d ∧ (n : ℚ) / d < 2 ^ (place + 53) := by
  obtain ⟨low, high⟩ := estimate_bounds numerator denominator
  have positive := scaled_pos n denominator ((n.log2 : Int) - d.log2)
  have ratio := scaled_ratio n d ((n.log2 : Int) - d.log2)
  rw [targetExponent]
  dsimp only
  generalize (n.log2 : Int) - d.log2 = estimate at *
  have power : (0 : ℚ) < 2 ^ estimate := zpow_pos two_pos _
  have positive' : (0 : ℚ) < (scaled n d estimate).2 := by exact_mod_cast positive
  split
  · next fits =>
      have fits' : ((scaled n d estimate).2 : ℚ) ≤ (scaled n d estimate).1 := by exact_mod_cast fits
      have atLeast : 1 ≤ (n : ℚ) / d / 2 ^ estimate := by
        rw [← ratio]
        exact (one_le_div positive').mpr fits'
      refine ⟨estimate - 52, rfl, ?_, ?_⟩
      · rw [Int.sub_add_cancel]
        exact (one_le_div power).mp atLeast
      · rw [show estimate - 52 + 53 = estimate + 1 by omega]
        exact high
  · next small =>
      have small' : ((scaled n d estimate).1 : ℚ) < (scaled n d estimate).2 := by
        exact_mod_cast not_le.mp small
      have below : (n : ℚ) / d / 2 ^ estimate < 1 := by
        rw [← ratio]
        exact (div_lt_one positive').mpr small'
      refine ⟨estimate - 53, rfl, ?_, ?_⟩
      · rw [show estimate - 53 + 52 = estimate - 1 by omega]
        exact low.le
      · rw [Int.sub_add_cancel]
        exact (div_lt_one power).mp below

/-- A fraction within half a unit of `k` units is rounded to `k` of them. -/
private theorem roundHalfEven_scaled {n d k : Nat} {exponent : Int} (denominator : 0 < d)
    (low : (k - 1 / 2) * (2 : ℚ) ^ exponent ≤ n / d) (high : n / d ≤ (k + 1 / 2) * (2 : ℚ) ^ exponent)
    (odd : k % 2 = 1 → (k - 1 / 2) * (2 : ℚ) ^ exponent < n / d ∧
      n / d < (k + 1 / 2) * (2 : ℚ) ^ exponent) :
    roundHalfEven (scaled n d exponent).1 (scaled n d exponent).2 = k := by
  have positive := scaled_pos n denominator exponent
  have ratio := scaled_ratio n d exponent
  have power : (0 : ℚ) < 2 ^ exponent := zpow_pos two_pos _
  generalize (scaled n d exponent).1 = n' at *
  generalize (scaled n d exponent).2 = d' at *
  have positive' : (0 : ℚ) < d' := by exact_mod_cast positive
  have whole : (n : ℚ) / d = n' / d' * 2 ^ exponent := by
    rw [ratio, div_mul_cancel₀ _ power.ne']
  rw [whole] at low high odd
  simp only [mul_le_mul_iff_left₀ power, mul_lt_mul_iff_left₀ power, le_div_iff₀ positive',
    div_le_iff₀ positive', lt_div_iff₀ positive', div_lt_iff₀ positive'] at low high odd
  refine roundHalfEven_eq positive ?_ ?_ fun odd' => ?_
  · have low' : (2 * (k * d') : ℚ) ≤ 2 * n' + d' := by linarith
    exact_mod_cast low'
  · have high' : (2 * n' : ℚ) ≤ 2 * (k * d') + d' := by linarith
    exact_mod_cast high'
  · obtain ⟨low', high'⟩ := odd odd'
    have low'' : (2 * (k * d') : ℚ) < 2 * n' + d' := by linarith
    have high'' : (2 * n' : ℚ) < 2 * (k * d') + d' := by linarith
    exact ⟨by exact_mod_cast low'', by exact_mod_cast high''⟩

/-! ## Rounding intervals -/

/-- A number lies in the rounding interval of a binary fraction. -/
structure Within (b : Binary) (q : ℚ) : Prop where
  low : (Interval.ofBinary b).low * (2 : ℚ) ^ (b.exponent - 2) ≤ q
  high : q ≤ (Interval.ofBinary b).high * (2 : ℚ) ^ (b.exponent - 2)
  odd : b.mantissa % 2 = 1 → (Interval.ofBinary b).low * (2 : ℚ) ^ (b.exponent - 2) < q ∧
    q < (Interval.ofBinary b).high * (2 : ℚ) ^ (b.exponent - 2)

private theorem pow_quarter (exponent : Int) (places : Nat) :
    (2 : ℚ) ^ (exponent - 2 + places) = 2 ^ places * 2 ^ (exponent - 2) := by
  rw [zpow_add₀ two_ne_zero, zpow_natCast, mul_comm]

theorem high_eq (b : Binary) : ((Interval.ofBinary b).high : ℚ) = 4 * b.mantissa + 2 := by
  simp [Interval.ofBinary]

/-- The interval begins half a place below its float, or a quarter below a power of two. -/
theorem low_cases {b : Binary} (positive : 0 < b.mantissa) :
    (b.mantissa = mantissaSpan ∧ leastExponent < b.exponent ∧
      ((Interval.ofBinary b).low : ℚ) = 4 * b.mantissa - 1) ∨
    (¬ (b.mantissa = mantissaSpan ∧ leastExponent < b.exponent) ∧
      ((Interval.ofBinary b).low : ℚ) = 4 * b.mantissa - 2) := by
  rw [Interval.ofBinary]
  by_cases power : b.mantissa = mantissaSpan ∧ leastExponent < b.exponent
  · refine .inl ⟨power.1, power.2, ?_⟩
    rw [if_pos (by simpa using power), Nat.cast_sub (by omega)]
    push_cast
    ring
  · refine .inr ⟨power, ?_⟩
    rw [if_neg (by simpa using power), Nat.cast_sub (by omega)]
    push_cast
    ring

theorem low_ge {b : Binary} (positive : 0 < b.mantissa) :
    (4 * b.mantissa - 2 : ℚ) ≤ (Interval.ofBinary b).low := by
  rcases low_cases positive with ⟨-, -, low⟩ | ⟨-, low⟩
  · rw [low]
    linarith
  · rw [low]

variable {b : Binary} {q : ℚ}

theorem Within.pos (within : Within b q) (positive : 0 < b.mantissa) : 0 < q := by
  have quarter : (0 : ℚ) < 2 ^ (b.exponent - 2) := zpow_pos two_pos _
  have one : (1 : ℚ) ≤ b.mantissa := by exact_mod_cast positive
  have bound := low_ge positive
  have lowPos : (0 : ℚ) < (Interval.ofBinary b).low := by linarith
  exact lt_of_lt_of_le (mul_pos lowPos quarter) within.low

theorem Within.lt_pow (within : Within b q) (canonical : b.Canonical) :
    q < 2 ^ (b.exponent + 53) := by
  have quarter : (0 : ℚ) < 2 ^ (b.exponent - 2) := zpow_pos two_pos _
  have short : b.mantissa + 1 ≤ 2 ^ 53 := canonical.short
  have short' : (b.mantissa : ℚ) + 1 ≤ 2 ^ 53 := by exact_mod_cast short
  have shift := pow_quarter b.exponent 55
  rw [show b.exponent - 2 + (55 : Nat) = b.exponent + 53 by omega] at shift
  rw [shift]
  refine lt_of_le_of_lt within.high ((mul_lt_mul_iff_left₀ quarter).mpr ?_)
  rw [high_eq]
  linarith

/-- The float itself is what a fraction in the interval has at its own exponent. -/
private theorem round_at_exponent {n d : Nat} (denominator : 0 < d) (positive : 0 < b.mantissa)
    (within : Within b (n / d)) :
    roundHalfEven (scaled n d b.exponent).1 (scaled n d b.exponent).2 = b.mantissa := by
  have shift := pow_quarter b.exponent 2
  rw [show b.exponent - 2 + (2 : Nat) = b.exponent by omega] at shift
  have quarter : (0 : ℚ) < 2 ^ (b.exponent - 2) := zpow_pos two_pos _
  have low := within.low
  have high := within.high
  have odd := within.odd
  have least : (b.mantissa - 1 / 2) * (2 : ℚ) ^ b.exponent ≤
      (Interval.ofBinary b).low * 2 ^ (b.exponent - 2) := by
    rw [shift, ← mul_assoc]
    refine mul_le_mul_of_nonneg_right ?_ quarter.le
    have bound := low_ge positive
    linarith
  have greatest : (Interval.ofBinary b).high * (2 : ℚ) ^ (b.exponent - 2) =
      (b.mantissa + 1 / 2) * 2 ^ b.exponent := by
    rw [shift, high_eq]
    ring
  rw [greatest] at high odd
  exact roundHalfEven_scaled denominator (least.trans low) high fun odd' =>
    ⟨lt_of_le_of_lt least (odd odd').1, (odd odd').2⟩

/-- Below the places of the float itself lies only what is less than a quarter of a place away from
a power of two; it is rounded up to that power. -/
private theorem round_below {n d : Nat} (denominator : 0 < d) (canonical : b.Canonical)
    (positive : 0 < b.mantissa) (within : Within b (n / d)) (above : leastExponent < b.exponent)
    (small : (n : ℚ) / d < 2 ^ (b.exponent + 52)) :
    b.mantissa = mantissaSpan ∧ (2 : ℚ) ^ (b.exponent + 51) ≤ n / d ∧
      roundHalfEven (scaled n d (b.exponent - 1)).1 (scaled n d (b.exponent - 1)).2 = 2 ^ 53 := by
  have quarter : (0 : ℚ) < 2 ^ (b.exponent - 2) := zpow_pos two_pos _
  have full := canonical.full above
  have low := within.low
  have shift := pow_quarter b.exponent 54
  rw [show b.exponent - 2 + (54 : Nat) = b.exponent + 52 by omega] at shift
  rw [shift] at small
  have mantissa : b.mantissa = mantissaSpan := by
    have below := lt_of_le_of_lt low small
    rw [mul_lt_mul_iff_left₀ quarter] at below
    have bound := low_ge positive
    have less : (4 * b.mantissa : ℚ) < 2 ^ 54 + 2 := by linarith
    have less' : 4 * b.mantissa < 2 ^ 54 + 2 := by exact_mod_cast less
    have span : mantissaSpan = 2 ^ 52 := rfl
    omega
  have lowEq : ((Interval.ofBinary b).low : ℚ) = 2 ^ 54 - 1 := by
    rcases low_cases positive with ⟨-, -, low⟩ | ⟨not, -⟩
    · rw [low, mantissa]
      norm_num [mantissaSpan]
    · exact absurd ⟨mantissa, above⟩ not
  rw [lowEq] at low
  refine ⟨mantissa, ?_, ?_⟩
  · have shift' := pow_quarter b.exponent 53
    rw [show b.exponent - 2 + (53 : Nat) = b.exponent + 51 by omega] at shift'
    rw [shift']
    refine le_trans ?_ low
    exact mul_le_mul_of_nonneg_right (by norm_num) quarter.le
  · have shift' := pow_quarter b.exponent 1
    rw [show b.exponent - 2 + (1 : Nat) = b.exponent - 1 by omega] at shift'
    refine roundHalfEven_scaled denominator ?_ ?_ fun odd => by omega
    · rw [shift']
      refine le_trans (le_of_eq ?_) low
      push_cast
      ring
    · rw [shift']
      refine le_trans small.le ?_
      push_cast
      linarith

/-- Every fraction in the rounding interval of a positive float is rounded to that float. -/
theorem nearestBits_of_within (canonical : b.Canonical) (positive : 0 < b.mantissa) {n d : Nat}
    (denominator : 0 < d) (within : Within b (n / d)) : nearestBits n d = b.bits := by
  have numerator : 0 < n := by
    rcases Nat.eq_zero_or_pos n with rfl | numerator
    · simpa using within.pos positive
    · exact numerator
  obtain ⟨place, target, lower, upper⟩ := targetExponent_spec numerator denominator
  have least := canonical.least
  have noHigher : place ≤ b.exponent := by
    have between : (2 : ℚ) ^ (place + 52) < 2 ^ (b.exponent + 53) :=
      lt_of_le_of_lt lower (within.lt_pow canonical)
    have exponents := (zpow_lt_zpow_iff_right₀ one_lt_two).mp between
    omega
  rw [nearestBits, if_neg numerator.ne', target]
  dsimp only
  by_cases own : max leastExponent place = b.exponent
  · rw [own, round_at_exponent denominator positive within]
    exact Nat.min_eq_right canonical.bits_lt.le
  · -- The fraction falls below the places of `b`; only rounding up to a power of two leads back.
    have above : leastExponent < b.exponent := by omega
    have small : (n : ℚ) / d < 2 ^ (b.exponent + 52) :=
      lt_of_lt_of_le upper (zpow_le_zpow_right₀ one_le_two (by omega))
    obtain ⟨mantissa, large, rounded⟩ :=
      round_below denominator canonical positive within above small
    have between := (zpow_lt_zpow_iff_right₀ one_lt_two).mp (lt_of_le_of_lt large upper)
    rw [show max leastExponent place = b.exponent - 1 by omega, rounded]
    have carried : (b.exponent - 1 - leastExponent).toNat * mantissaSpan + 2 ^ 53 = b.bits := by
      have span : mantissaSpan = 2 ^ 52 := rfl
      rw [Binary.bits, mantissa, span]
      omega
    rw [carried]
    exact Nat.min_eq_right canonical.bits_lt.le

end Lisp.Number
