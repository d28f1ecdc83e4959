import Lisp.Proofs.Number.Shortest
import Mathlib.Data.List.TakeWhile

/-! The text of a finite number reads back as that number. -/

set_option autoImplicit false

namespace Lisp.Number

/-! ## Digits -/

theorem isDigit_of_mem_digits {c : Char} {n : Nat} (present : c ∈ Decimal.digits n) :
    c.isDigit = true :=
  Nat.isDigit_of_mem_toDigits (by decide) (by decide) present

theorem ofDigits_digits (n : Nat) : Decimal.ofDigits (Decimal.digits n) = n :=
  Nat.ofDigitChars_ten_toDigits

theorem ofDigits_append_zeros (cs : List Char) (n : Nat) :
    Decimal.ofDigits (cs ++ List.replicate n '0') = Decimal.ofDigits cs * 10 ^ n := by
  have appended : Nat.ofDigitChars 10 (cs ++ List.replicate n '0') 0 =
      10 ^ n * Nat.ofDigitChars 10 cs 0 := by
    rw [Nat.ofDigitChars_append, Nat.ofDigitChars_replicate_zero]
  exact appended.trans (Nat.mul_comm _ _)

theorem ofDigits_zeros_append (n : Nat) (cs : List Char) :
    Decimal.ofDigits (List.replicate n '0' ++ cs) = Decimal.ofDigits cs := by
  have appended : Nat.ofDigitChars 10 (List.replicate n '0' ++ cs) 0 =
      Nat.ofDigitChars 10 cs 0 := by
    rw [Nat.ofDigitChars_append, Nat.ofDigitChars_replicate_zero, Nat.mul_zero]
  exact appended

/-! ## Positional notation -/

/-- Digits, or digits around a point. -/
inductive Positional : List Char → ℚ → Prop where
  | whole {digits : List Char} (nonempty : digits ≠ []) (all : ∀ c ∈ digits, c.isDigit = true) :
      Positional digits (Decimal.ofDigits digits)
  | fraction {digits places : List Char} (nonempty : digits ≠ [])
      (all : ∀ c ∈ digits, c.isDigit = true) (allPlaces : ∀ c ∈ places, c.isDigit = true) :
      Positional (digits ++ '.' :: places)
        (Decimal.value ⟨Decimal.ofDigits (digits ++ places), -places.length⟩)

private theorem Positional.of_decimal {d : Decimal} {digits places : List Char}
    (nonempty : digits ≠ []) (all : ∀ c ∈ digits, c.isDigit = true)
    (allPlaces : ∀ c ∈ places, c.isDigit = true)
    (coefficient : Decimal.ofDigits (digits ++ places) = d.coefficient)
    (exponent : -(places.length : Int) = d.exponent) :
    Positional (digits ++ '.' :: places) d.value := by
  have written := Positional.fraction nonempty all allPlaces
  rwa [coefficient, exponent] at written

private theorem isDigit_of_mem_zeros {c : Char} {n : Nat} (present : c ∈ List.replicate n '0') :
    c.isDigit = true := by
  rw [List.eq_of_mem_replicate present]
  rfl

/-- What is written for a decimal is positional notation for its value. -/
theorem positional_value (d : Decimal) : Positional d.positional d.value := by
  have digit : ∀ c ∈ Decimal.digits d.coefficient, c.isDigit = true :=
    fun c present => isDigit_of_mem_digits present
  have written := ofDigits_digits d.coefficient
  have nonempty : Decimal.digits d.coefficient ≠ [] := Nat.toDigits_ne_nil
  rw [Decimal.positional]
  generalize Decimal.digits d.coefficient = ds at *
  dsimp only
  split
  · next nonneg =>
      split
      · next zero =>
          have value : d.value = Decimal.ofDigits ['0'] := by
            rw [Decimal.value, zero, Nat.cast_zero, zero_mul]
            rfl
          rw [value]
          exact .whole (List.cons_ne_nil _ _) fun c present => @isDigit_of_mem_zeros c 1 present
      · have value : d.value =
            Decimal.ofDigits (ds ++ List.replicate d.exponent.toNat '0') := by
          rw [ofDigits_append_zeros, written, Decimal.value]
          push_cast
          rw [pow_toNat nonneg]
        rw [value]
        refine .whole (List.append_ne_nil_of_left_ne_nil nonempty _) fun c present => ?_
        rcases List.mem_append.mp present with inDigits | inZeros
        · exact digit c inDigits
        · exact isDigit_of_mem_zeros inZeros
  · next negative =>
      split
      · next inside =>
          refine .of_decimal ?_ (fun c present => digit c (List.mem_of_mem_take present))
            (fun c present => digit c (List.mem_of_mem_drop present)) ?_ ?_
          · intro empty
            have length := congrArg List.length empty
            rw [List.length_take, List.length_nil] at length
            omega
          · rw [List.take_append_drop, written]
          · rw [List.length_drop]
            omega
      · next outside =>
          refine Positional.of_decimal (List.cons_ne_nil '0' [])
            (fun c present => @isDigit_of_mem_zeros c 1 present) ?_ ?_ ?_
          · intro c present
            rcases List.mem_append.mp present with inZeros | inDigits
            · exact isDigit_of_mem_zeros inZeros
            · exact digit c inDigits
          · rw [← List.append_assoc, ← List.replicate_one, List.replicate_append_replicate,
              ofDigits_zeros_append, written]
          · rw [List.length_append, List.length_replicate]
            omega

theorem readDecimal?_of_positional {cs : List Char} {q : ℚ} (written : Positional cs q) :
    ∃ d, readDecimal? cs = some d ∧ d.value = q := by
  cases written with
  | whole nonempty all =>
      have taken : cs.takeWhile Char.isDigit = cs := List.takeWhile_eq_self_iff.mpr all
      have dropped : cs.dropWhile Char.isDigit = [] := List.dropWhile_eq_nil_iff.mpr all
      have shown : cs.isEmpty = false := List.isEmpty_eq_false_iff.mpr nonempty
      refine ⟨⟨Decimal.ofDigits cs, 0⟩, ?_, ?_⟩
      · simp [readDecimal?, taken, dropped, shown, readExponent?]
      · rw [Decimal.value, zpow_zero, mul_one]
  | @fraction digits places nonempty all allPlaces =>
      have point : ('.' :: places).takeWhile Char.isDigit = [] := rfl
      have point' : ('.' :: places).dropWhile Char.isDigit = '.' :: places := rfl
      have taken : (digits ++ '.' :: places).takeWhile Char.isDigit = digits := by
        rw [List.takeWhile_append_of_pos all, point, List.append_nil]
      have dropped : (digits ++ '.' :: places).dropWhile Char.isDigit = '.' :: places := by
        rw [List.dropWhile_append_of_pos all, point']
      have takenPlaces : places.takeWhile Char.isDigit = places :=
        List.takeWhile_eq_self_iff.mpr allPlaces
      have droppedPlaces : places.dropWhile Char.isDigit = [] :=
        List.dropWhile_eq_nil_iff.mpr allPlaces
      have shown : digits.isEmpty = false := List.isEmpty_eq_false_iff.mpr nonempty
      refine ⟨⟨Decimal.ofDigits (digits ++ places), -places.length⟩, ?_, rfl⟩
      simp [readDecimal?, taken, dropped, takenPlaces, droppedPlaces, shown, readExponent?]

/-! ## Sizes -/

theorem coefficient_lt (n : Nat) : n < 10 ^ (Decimal.digits n).length :=
  (Nat.length_toDigits_le_iff (by decide) Nat.length_toDigits_pos).mp (Nat.le_refl _)

theorem le_coefficient {n : Nat} (positive : 0 < n) : 10 ^ ((Decimal.digits n).length - 1) ≤ n := by
  rcases Nat.eq_zero_or_pos ((Decimal.digits n).length - 1) with zero | more
  · rw [zero]
    exact positive
  · by_contra less
    have shorter : (Decimal.digits n).length ≤ (Decimal.digits n).length - 1 :=
      (Nat.length_toDigits_le_iff (by decide) more).mpr (not_le.mp less)
    have nonempty : 0 < (Decimal.digits n).length := Nat.length_toDigits_pos
    omega

private theorem ten_ne_zero : (10 : ℚ) ≠ 0 := by norm_num

theorem ratio_spec (d : Decimal) : 0 < d.ratio.2 ∧ (d.ratio.1 : ℚ) / d.ratio.2 = d.value := by
  rw [Decimal.ratio, Decimal.value]
  split
  · next nonneg =>
      refine ⟨Nat.one_pos, ?_⟩
      simp only [Nat.pow_eq, Nat.cast_mul, Nat.cast_pow, Nat.cast_ofNat, Nat.cast_one, div_one]
      rw [pow_toNat nonneg]
  · next negative =>
      refine ⟨Nat.pow_pos (by decide), ?_⟩
      simp only [Nat.pow_eq, Nat.cast_pow, Nat.cast_ofNat]
      rw [pow_toNat (by omega), zpow_neg, div_inv_eq_mul]

/-- A decimal lies between the powers of ten that its number of digits tells. -/
theorem value_bounds {d : Decimal} (positive : 0 < d.coefficient) :
    (10 : ℚ) ^ ((Decimal.digits d.coefficient).length + d.exponent - 1) ≤ d.value ∧
      d.value < 10 ^ ((Decimal.digits d.coefficient).length + d.exponent) := by
  have power : (0 : ℚ) < 10 ^ d.exponent := zpow_pos (by norm_num) _
  have nonempty : 0 < (Decimal.digits d.coefficient).length := Nat.length_toDigits_pos
  have low : ((10 ^ ((Decimal.digits d.coefficient).length - 1) : Nat) : ℚ) ≤ d.coefficient := by
    exact_mod_cast le_coefficient positive
  have high : (d.coefficient : ℚ) < (10 ^ (Decimal.digits d.coefficient).length : Nat) := by
    exact_mod_cast coefficient_lt d.coefficient
  constructor
  · calc (10 : ℚ) ^ ((Decimal.digits d.coefficient).length + d.exponent - 1)
        = ((10 ^ ((Decimal.digits d.coefficient).length - 1) : Nat) : ℚ) * 10 ^ d.exponent := by
          rw [Nat.cast_pow, Nat.cast_ofNat, ← zpow_natCast, ← zpow_add₀ ten_ne_zero]
          congr 1
          omega
      _ ≤ d.coefficient * 10 ^ d.exponent := mul_le_mul_of_nonneg_right low power.le
  · calc d.coefficient * (10 : ℚ) ^ d.exponent
        < ((10 ^ (Decimal.digits d.coefficient).length : Nat) : ℚ) * 10 ^ d.exponent :=
          mul_lt_mul_of_pos_right high power
      _ = 10 ^ ((Decimal.digits d.coefficient).length + d.exponent) := by
          rw [Nat.cast_pow, Nat.cast_ofNat, ← zpow_natCast, ← zpow_add₀ ten_ne_zero]

private theorem two_pow_lt : (2 : ℚ) ^ ((1024 : Nat) : Int) < 10 ^ ((310 : Nat) : Int) := by
  have naturals : 2 ^ 1024 < 10 ^ 310 := by decide +kernel
  rw [zpow_natCast, zpow_natCast]
  exact_mod_cast naturals

private theorem ten_pow_lt : (10 : ℚ) ^ (-(330 : Nat) : Int) < 2 ^ (-(1076 : Nat) : Int) := by
  have naturals : 2 ^ 1076 < 10 ^ 330 := by decide +kernel
  rw [zpow_neg, zpow_neg, zpow_natCast, zpow_natCast]
  refine inv_strictAnti₀ (pow_pos two_pos _) ?_
  exact_mod_cast naturals

/-- What rounds to a float is neither too great nor too small to be multiplied out. -/
private theorem size_bounds {b : Binary} (canonical : b.Canonical) (positive : 0 < b.mantissa)
    {d : Decimal} (within : Within b d.value) (coefficient : 0 < d.coefficient) :
    (Decimal.digits d.coefficient).length + d.exponent ≤ 310 ∧
      -330 ≤ (Decimal.digits d.coefficient).length + d.exponent := by
  obtain ⟨low, high⟩ := value_bounds coefficient
  have least := canonical.least
  have greatest := canonical.greatest
  rw [leastExponent] at least
  constructor
  · by_contra tooGreat
    have below : d.value < (2 : ℚ) ^ ((1024 : Nat) : Int) :=
      lt_of_lt_of_le (within.lt_pow canonical) (zpow_le_zpow_right₀ one_le_two (by omega))
    have above : (10 : ℚ) ^ ((310 : Nat) : Int) ≤ d.value :=
      le_trans (zpow_le_zpow_right₀ (by norm_num) (by omega)) low
    exact lt_asymm two_pow_lt (lt_of_le_of_lt above below)
  · by_contra tooSmall
    have below : d.value < (10 : ℚ) ^ (-(330 : Nat) : Int) :=
      lt_of_lt_of_le high (zpow_le_zpow_right₀ (by norm_num) (by omega))
    have quarter : (2 : ℚ) ^ (-(1076 : Nat) : Int) ≤ 2 ^ (b.exponent - 2) :=
      zpow_le_zpow_right₀ one_le_two (by omega)
    have lowEnd : (1 : ℚ) ≤ (Interval.ofBinary b).low := by
      have one : (1 : ℚ) ≤ b.mantissa := by exact_mod_cast positive
      have bound := low_ge positive
      linarith
    have above : (2 : ℚ) ^ (-(1076 : Nat) : Int) ≤ d.value :=
      calc (2 : ℚ) ^ (-(1076 : Nat) : Int) ≤ 2 ^ (b.exponent - 2) := quarter
        _ ≤ (Interval.ofBinary b).low * 2 ^ (b.exponent - 2) :=
          le_mul_of_one_le_left (zpow_pos two_pos _).le lowEnd
        _ ≤ d.value := within.low
    exact lt_asymm ten_pow_lt (lt_of_le_of_lt above below)

/-- Reading a decimal in the rounding interval of a float gives that float. -/
theorem ofDecimal_of_within {b : Binary} (canonical : b.Canonical) (positive : 0 < b.mantissa)
    {d : Decimal} (within : Within b d.value) (negative : Bool) :
    ofDecimal negative d = ofMagnitudeBits negative b.bits := by
  have coefficient : 0 < d.coefficient := by
    rcases Nat.eq_zero_or_pos d.coefficient with zero | coefficient
    · have valuePos := within.pos positive
      rw [Decimal.value, zero, Nat.cast_zero, zero_mul] at valuePos
      exact absurd valuePos (lt_irrefl 0)
    · exact coefficient
  obtain ⟨notGreat, notSmall⟩ := size_bounds canonical positive within coefficient
  obtain ⟨denominator, ratio⟩ := ratio_spec d
  rw [← ratio] at within
  rw [ofDecimal]
  dsimp only
  rw [if_neg coefficient.ne', if_neg (by omega), if_neg (by omega), nearest,
    nearestBits_of_within canonical positive denominator within]

private theorem ofDecimal_of_value {b : Binary} (canonical : b.Canonical) {d : Decimal}
    (value : d.value = (shortest b).value) (negative : Bool) :
    ofDecimal negative d = ofMagnitudeBits negative b.bits := by
  rcases Nat.eq_zero_or_pos b.mantissa with zero | positive
  · have vanishes : d.value = 0 := by
      rw [value, shortest, if_pos zero, Decimal.value, Nat.cast_zero, zero_mul]
    have coefficient : d.coefficient = 0 := by
      have power : (10 : ℚ) ^ d.exponent ≠ 0 := zpow_ne_zero _ ten_ne_zero
      exact_mod_cast (mul_eq_zero.mp vanishes).resolve_right power
    have exponent : b.exponent = leastExponent := by
      by_contra other
      have full := canonical.full (lt_of_le_of_ne canonical.least (Ne.symm other))
      rw [zero] at full
      exact absurd full (by decide)
    rw [ofDecimal, if_pos coefficient, Binary.bits, zero, exponent, sub_self]
    rfl
  · rw [← ofDecimal_of_within canonical positive (value ▸ within_shortest positive)]

/-! ## Number text -/

theorem Positional.cons_of {cs : List Char} {q : ℚ} (written : Positional cs q) :
    ∃ c rest, cs = c :: rest ∧ c.isDigit = true ∧
      ∀ other ∈ rest, other.isDigit = true ∨ other = '.' := by
  cases written with
  | whole nonempty all =>
      obtain ⟨c, rest, rfl⟩ := List.exists_cons_of_ne_nil nonempty
      exact ⟨c, rest, rfl, all c List.mem_cons_self,
        fun other present => .inl (all other (List.mem_cons_of_mem _ present))⟩
  | @fraction digits places nonempty all allPlaces =>
      obtain ⟨c, rest, rfl⟩ := List.exists_cons_of_ne_nil nonempty
      refine ⟨c, rest ++ '.' :: places, rfl, all c List.mem_cons_self, fun other present => ?_⟩
      rcases List.mem_append.mp present with front | back
      · exact .inl (all other (List.mem_cons_of_mem _ front))
      · rcases List.mem_cons.mp back with point | place
        · exact .inr point
        · exact .inl (allPlaces other place)

theorem ne_of_isDigit {c other : Char} (digit : c.isDigit = true)
    (notDigit : other.isDigit = false) : c ≠ other := by
  rintro rfl
  rw [notDigit] at digit
  cases digit

private theorem toLower_digit {c : Char} (digit : c.isDigit = true) : c.toLower = c := by
  rw [Char.isDigit, Bool.and_eq_true, decide_eq_true_eq, decide_eq_true_eq] at digit
  rw [Char.toLower, dif_neg]
  intro upper
  have order := UInt32.le_trans upper.1 digit.2
  exact absurd order (by decide)

theorem not_word {c letter : Char} {rest word : List Char} (digit : c.isDigit = true)
    (notDigit : letter.isDigit = false) : (c :: rest).map Char.toLower ≠ letter :: word := by
  intro same
  obtain ⟨first, -⟩ := List.cons.inj same
  rw [toLower_digit digit] at first
  exact ne_of_isDigit digit notDigit first

private theorem splitSign_digit {c : Char} (digit : c.isDigit = true) (rest : List Char) :
    splitSign (c :: rest) = (false, c :: rest) := by
  refine splitSign.eq_3 (c :: rest) ?_ ?_
  · rintro _ ⟨⟩
    cases digit
  · rintro _ ⟨⟩
    cases digit

theorem toText_toList {x : Float} {b : Binary} (magnitude : magnitude? x = some b) :
    (toText x).toList = (if isNegative x then ['-'] else []) ++ (shortest b).positional := by
  rw [toText, isNaN_of_magnitude? magnitude, magnitude]
  cases isNegative x <;> simp

/-- A finite number is read back from its text. -/
theorem ofText?_toText {x : Float} (finite : isFinite x = true) : ofText? (toText x) = some x := by
  obtain ⟨b, magnitude⟩ := Option.isSome_iff_exists.mp finite
  obtain ⟨canonical, bits⟩ := canonical_of_magnitude? magnitude
  have written := positional_value (shortest b)
  obtain ⟨d, read, value⟩ := readDecimal?_of_positional written
  obtain ⟨c, rest, shape, digit, -⟩ := written.cons_of
  have signed : splitSign (toText x).toList = (isNegative x, (shortest b).positional) := by
    rw [toText_toList magnitude, shape]
    cases isNegative x with
    | true => rfl
    | false => exact splitSign_digit digit rest
  have notInf : (shortest b).positional.map Char.toLower ≠ "inf".toList := by
    rw [shape]
    exact not_word digit rfl
  have notInfinity : (shortest b).positional.map Char.toLower ≠ "infinity".toList := by
    rw [shape]
    exact not_word digit rfl
  have notNaN : (shortest b).positional.map Char.toLower ≠ "nan".toList := by
    rw [shape]
    exact not_word digit rfl
  rw [ofText?, signed]
  simp only [notInf, notInfinity, notNaN, decide_false, Bool.or_false, read, Option.map_some]
  rw [ofDecimal_of_value canonical value, ← bits, ofMagnitudeBits_self]
  rfl

/-! ## Numbers that were read -/

theorem nearestBits_le (numerator denominator : Nat) :
    nearestBits numerator denominator ≤ infinityBits := by
  rw [nearestBits]
  split_ifs
  · exact Nat.zero_le _
  · exact Nat.min_le_left _ _

theorem ofDecimal_bits (negative : Bool) (d : Decimal) :
    ∃ bits ≤ infinityBits, ofDecimal negative d = ofMagnitudeBits negative bits := by
  rw [ofDecimal]
  split_ifs
  · exact ⟨0, Nat.zero_le _, rfl⟩
  · exact ⟨infinityBits, Nat.le_refl _, rfl⟩
  · exact ⟨0, Nat.zero_le _, rfl⟩
  · exact ⟨_, nearestBits_le _ _, rfl⟩

/-- Of all number text only the word for a NaN is read as one. -/
theorem isFinite_of_ofText? {text : String} {x : Float} (read : ofText? text = some x)
    (word : (splitSign text.toList).2.map Char.toLower ≠ "nan".toList) (bounded : x.isInf = false) :
    isFinite x = true := by
  have stored : ∃ negative bits, bits ≤ infinityBits ∧ ofMagnitudeBits negative bits = x := by
    rw [ofText?] at read
    rcases signed : splitSign text.toList with ⟨negative, rest⟩
    simp only [signed] at read word
    rw [if_neg word] at read
    split at read
    · exact ⟨negative, infinityBits, Nat.le_refl _, Option.some.inj read⟩
    · obtain ⟨d, -, rfl⟩ := Option.map_eq_some_iff.mp read
      obtain ⟨bits, most, same⟩ := ofDecimal_bits negative d
      exact ⟨negative, bits, most, same.symm⟩
  obtain ⟨negative, bits, most, rfl⟩ := stored
  exact isFinite_of_isInf most bounded

end Lisp.Number
