import Lisp.Proofs.Number.Rounding

/-! The decimal that is written for a float lies in the float's rounding interval. -/

set_option autoImplicit false

namespace Lisp.Number

/-- The number that a decimal denotes. -/
def Decimal.value (d : Decimal) : ℚ :=
  d.coefficient * 10 ^ d.exponent

/-- Powers with the negative part of their exponent moved to the other side. -/
private theorem pow_toNat_eq {base : ℚ} (nonzero : base ≠ 0) (exponent : Int) :
    base ^ exponent.toNat = base ^ exponent * base ^ (-exponent).toNat := by
  rw [← zpow_natCast, ← zpow_natCast, ← zpow_add₀ nonzero]
  congr 1
  omega

section

variable {k l u s : Nat} {unit step grid : ℚ} (positive : 0 < grid) (unitGrid : u = unit * grid)
  (stepGrid : s = step * grid)

include positive unitGrid stepGrid

/-- Multiples of two units are compared on a common grid. -/
private theorem grid_le : k * u ≤ l * s ↔ (k : ℚ) * unit ≤ l * step := by
  rw [← Nat.cast_le (α := ℚ), Nat.cast_mul, Nat.cast_mul, unitGrid, stepGrid, ← mul_assoc,
    ← mul_assoc, mul_le_mul_iff_left₀ positive]

private theorem grid_lt : k * u < l * s ↔ (k : ℚ) * unit < l * step := by
  rw [← Nat.cast_lt (α := ℚ), Nat.cast_mul, Nat.cast_mul, unitGrid, stepGrid, ← mul_assoc,
    ← mul_assoc, mul_lt_mul_iff_left₀ positive]

end

/-- What is found to be in the interval on the common grid is in the interval. -/
private theorem within_of_holds {b : Binary} {place : Int} {k : Nat}
    (held : (Interval.ofBinary b).holds
      (Nat.pow 2 (b.exponent - 2).toNat * Nat.pow 10 (-place).toNat)
      (k * (Nat.pow 10 place.toNat * Nat.pow 2 (-(b.exponent - 2)).toNat)) = true) :
    Within b (k * 10 ^ place) := by
  have ten : (10 : ℚ) ≠ 0 := by norm_num
  have positive : (0 : ℚ) < 2 ^ (-(b.exponent - 2)).toNat * 10 ^ (-place).toNat := by positivity
  have unitGrid : ((Nat.pow 2 (b.exponent - 2).toNat * Nat.pow 10 (-place).toNat : Nat) : ℚ) =
      2 ^ (b.exponent - 2) * (2 ^ (-(b.exponent - 2)).toNat * 10 ^ (-place).toNat) := by
    simp only [Nat.pow_eq, Nat.cast_mul, Nat.cast_pow, Nat.cast_ofNat]
    rw [pow_toNat_eq two_ne_zero]
    ring
  have stepGrid : ((Nat.pow 10 place.toNat * Nat.pow 2 (-(b.exponent - 2)).toNat : Nat) : ℚ) =
      10 ^ place * (2 ^ (-(b.exponent - 2)).toNat * 10 ^ (-place).toNat) := by
    simp only [Nat.pow_eq, Nat.cast_mul, Nat.cast_pow, Nat.cast_ofNat]
    rw [pow_toNat_eq ten]
    ring
  rw [Interval.holds] at held
  split at held
  · next even =>
      have even' : b.mantissa % 2 = 0 := by simpa [Interval.ofBinary] using even
      obtain ⟨low, high⟩ := (Bool.and_eq_true _ _).mp held
      exact ⟨(grid_le positive unitGrid stepGrid).mp (of_decide_eq_true low),
        (grid_le positive stepGrid unitGrid).mp (of_decide_eq_true high), by omega⟩
  · obtain ⟨low, high⟩ := (Bool.and_eq_true _ _).mp held
    have low' := (grid_lt positive unitGrid stepGrid).mp (of_decide_eq_true low)
    have high' := (grid_lt positive stepGrid unitGrid).mp (of_decide_eq_true high)
    exact ⟨low'.le, high'.le, fun _ => ⟨low', high'⟩⟩

theorem within_of_candidate? {b : Binary} {place : Int} {d : Decimal}
    (found : candidate? b place = some d) : Within b d.value := by
  rw [candidate?] at found
  split at found
  · next below =>
      cases found
      exact within_of_holds ((Bool.and_eq_true _ _).mp below).1
  · split at found
    · next above =>
        cases found
        exact within_of_holds above
    · cases found

theorem within_of_firstCandidate? {b : Binary} {count : Nat} {place : Int} {d : Decimal}
    (found : firstCandidate? b count place = some d) : Within b d.value := by
  induction count generalizing place with
  | zero => cases found
  | succ count ih =>
      rw [firstCandidate?] at found
      cases candidate : candidate? b place with
      | some first =>
          rw [candidate] at found
          cases found
          exact within_of_candidate? candidate
      | none =>
          rw [candidate] at found
          exact ih found

theorem exactDecimal_value (b : Binary) : (exactDecimal b).value = b.mantissa * 2 ^ b.exponent := by
  rw [exactDecimal, Decimal.value]
  split
  · next nonneg =>
      have power : (2 : ℚ) ^ b.exponent.toNat = 2 ^ b.exponent := pow_toNat nonneg
      simp only [Nat.pow_eq, Nat.cast_mul, Nat.cast_pow, Nat.cast_ofNat, power, zpow_zero, mul_one]
  · next negative =>
      have split : (10 : ℚ) ^ b.exponent = 5 ^ b.exponent * 2 ^ b.exponent := by
        rw [← mul_zpow]
        norm_num
      have power : (5 : ℚ) ^ (-b.exponent).toNat = 5 ^ (-b.exponent) := pow_toNat (by omega)
      have five : (5 : ℚ) ^ (-b.exponent) * 5 ^ b.exponent = 1 := by
        rw [← zpow_add₀ (by norm_num), neg_add_cancel, zpow_zero]
      simp only [Nat.pow_eq, Nat.cast_mul, Nat.cast_pow, Nat.cast_ofNat, power, split]
      rw [← mul_assoc, mul_assoc (b.mantissa : ℚ), five, mul_one]

/-- A float lies in its own interval. -/
theorem within_self {b : Binary} (positive : 0 < b.mantissa) :
    Within b (b.mantissa * 2 ^ b.exponent) := by
  have quarter : (0 : ℚ) < 2 ^ (b.exponent - 2) := zpow_pos two_pos _
  have shift : (2 : ℚ) ^ b.exponent = 4 * 2 ^ (b.exponent - 2) := by
    rw [zpow_sub₀ two_ne_zero]
    norm_num
    ring
  have own : (b.mantissa : ℚ) * 2 ^ b.exponent = 4 * b.mantissa * 2 ^ (b.exponent - 2) := by
    rw [shift]
    ring
  have low : ((Interval.ofBinary b).low : ℚ) < 4 * b.mantissa := by
    rcases low_cases positive with ⟨-, -, low⟩ | ⟨-, low⟩
    · rw [low]
      linarith
    · rw [low]
      linarith
  have high : (4 * b.mantissa : ℚ) < (Interval.ofBinary b).high := by
    rw [high_eq]
    linarith
  have low' := (mul_lt_mul_iff_left₀ quarter).mpr low
  have high' := (mul_lt_mul_iff_left₀ quarter).mpr high
  rw [own]
  exact ⟨low'.le, high'.le, fun _ => ⟨low', high'⟩⟩

/-- The decimal that is written for a positive float lies in its rounding interval. -/
theorem within_shortest {b : Binary} (positive : 0 < b.mantissa) :
    Within b (shortest b).value := by
  rw [shortest, if_neg positive.ne']
  dsimp only
  cases found : firstCandidate? b (greatestPlace b - min b.exponent 0).toNat (greatestPlace b) with
  | some d => exact within_of_firstCandidate? found
  | none =>
      rw [Option.getD_none, exactDecimal_value]
      exact within_self positive

end Lisp.Number
