import Lisp.Number.Binary
import Mathlib

/-! A float is determined by its sign and its magnitude bits. -/

set_option autoImplicit false

namespace Lisp.Number

open Float.Model (Format UnpackedFloat)
open Float.Model.UnpackedFloat (Sign pack packComponents unpackExponent unpackMantissa unpackSign)

/-! ## Packing -/

private theorem bias : (Format.binary64.exponentBias : Int) = 1023 := rfl

private theorem places : (Format.binary64.mantissaBitsWithoutImplicit : Int) = 52 := rfl

private theorem sign_bit (bit : BitVec 1) : (Sign.ofBitVec bit).toBitVec = bit := by
  revert bit
  decide

/-- The parts of packed bits make up the bits. -/
private theorem packComponents_unpack (bits : BitVec Format.binary64.numBits) :
    packComponents .binary64 (.ofBitVec (unpackSign bits)) (unpackExponent bits)
      (unpackMantissa bits) = bits := by
  rw [packComponents, sign_bit, unpackSign, unpackExponent, unpackMantissa]
  ext position inside
  simp only [BitVec.extractLsb, BitVec.getElem_append, BitVec.getElem_cast]
  grind

private theorem pack_subnormal (sign : Sign) (mantissa : BitVec 52) (positive : 0 < mantissa.toNat) :
    pack .binary64 (.finite sign mantissa.toNat (-1074) positive) =
      packComponents .binary64 sign 0#11 mantissa := by
  have small : mantissa.toNat.log2 < 52 :=
    (Nat.log2_lt positive.ne').mpr mantissa.isLt
  have field : (-1074 + (Format.binary64.exponentBias : Int) +
      (Format.binary64.mantissaBitsWithoutImplicit : Int)).toNat = 1 := by decide
  have width : Format.binary64.mantissaBits = 53 := by decide
  have shorter : ¬ mantissa.toNat.log2 + 1 = Format.binary64.mantissaBits := by omega
  simp only [pack, field, shorter, if_false, BitVec.ofNat_toNat, BitVec.setWidth_eq]
  rw [if_neg (by decide)]

private theorem toNat_implicit (mantissa : BitVec 52) :
    (1#1 ++ mantissa).toNat = 2 ^ 52 + mantissa.toNat := by
  rw [BitVec.toNat_append, ← Nat.shiftLeft_add_eq_or_of_lt mantissa.isLt]
  rfl

private theorem pack_normal (sign : Sign) (exponent : BitVec 11) (mantissa : BitVec 52)
    (finite : exponent ≠ -1#11) (positive : 0 < (1#1 ++ mantissa).toNat) :
    pack .binary64 (.finite sign (1#1 ++ mantissa).toNat (exponent.toNat - (1023 + 52)) positive) =
      packComponents .binary64 sign exponent mantissa := by
  have below : mantissa.toNat < 2 ^ 52 := mantissa.isLt
  have implicit := toNat_implicit mantissa
  have field : (exponent.toNat - (1023 + 52) + (Format.binary64.exponentBias : Int) +
      (Format.binary64.mantissaBitsWithoutImplicit : Int)).toNat = exponent.toNat := by
    rw [bias, places]
    omega
  have full : (1#1 ++ mantissa).toNat.log2 = 52 :=
    (Nat.log2_eq_iff positive.ne').mpr ⟨by omega, by omega⟩
  have width : (1#1 ++ mantissa).toNat.log2 + 1 = Format.binary64.mantissaBits := by rw [full]; rfl
  have range : exponent.toNat < 2 ^ 11 := exponent.isLt
  have inRange : ¬ 2 ^ 11 ≤ exponent.toNat + 1 := by
    intro top
    have last : exponent.toNat = 2047 := by omega
    exact finite (BitVec.toNat_inj.mp last)
  have stored : BitVec.ofNat 52 (1#1 ++ mantissa).toNat = mantissa := by
    apply BitVec.eq_of_toNat_eq
    rw [BitVec.toNat_ofNat, implicit, Nat.add_mod_left, Nat.mod_eq_of_lt below]
  simp only [pack, field, width, if_true, BitVec.ofNat_toNat, BitVec.setWidth_eq]
  rw [if_neg inRange]
  exact congrArg _ stored

theorem pack_unpack {bits : BitVec Format.binary64.numBits} (valid : Format.binary64.Valid bits) :
    pack .binary64 (UnpackedFloat.unpack .binary64 bits) = bits := by
  have parts := packComponents_unpack bits
  rw [UnpackedFloat.unpack]
  split
  · next top =>
      split
      · next zero => rwa [top, zero] at parts
      · next nonzero => exact (valid.eq_packedNaN top nonzero).symm
  · next finite =>
      split
      · next least =>
          split
          · next zero => rwa [least, zero] at parts
          · next nonzero =>
              have lowest : ((unpackExponent bits).toNat : Int) - (Format.binary64.exponentBias +
                  Format.binary64.mantissaBitsWithoutImplicit) + 1 = -1074 := by
                rw [least]
                decide
              simp only [lowest]
              rw [least] at parts
              exact (pack_subnormal _ _ _).trans parts
      · rw [bias]
        exact (pack_normal _ _ _ finite _).trans parts

theorem ofBits_toBits (x : Float) : Float.ofBits x.toBits = x := by
  obtain ⟨⟨bits, valid⟩⟩ := x
  have packed := pack_unpack valid
  simp only [Float.ofBits, Float.toBits, Float.Model.ofBits, Float.Model.pack, packed]

theorem toBits_ofBits {bits : UInt64} (valid : Format.binary64.Valid bits.toBitVec) :
    (Float.ofBits bits).toBits = bits := by
  simp only [Float.ofBits, Float.toBits, Float.Model.ofBits, Float.Model.pack, pack_unpack valid]

/-! ## Sign and magnitude -/

private theorem toNat_lt (x : Float) : x.toBits.toNat < 2 ^ 64 :=
  UInt64.toNat_lt x.toBits

/-- The sign and the magnitude bits make up a float. -/
theorem ofMagnitudeBits_self (x : Float) : ofMagnitudeBits (isNegative x) (magnitudeBits x) = x := by
  have range := toNat_lt x
  have whole : (if isNegative x then signBit + magnitudeBits x else magnitudeBits x) =
      x.toBits.toNat := by
    have bound : signBit = 2 ^ 63 := rfl
    cases negative : isNegative x with
    | true =>
        have high : signBit ≤ x.toBits.toNat := of_decide_eq_true negative
        simp only [magnitudeBits, if_true, bound] at *
        omega
    | false =>
        have low : ¬ signBit ≤ x.toBits.toNat := of_decide_eq_false negative
        simp only [magnitudeBits, Bool.false_eq_true, if_false, bound] at *
        omega
  rw [ofMagnitudeBits, whole, UInt64.ofNat_toNat, ofBits_toBits]

/-- The magnitudes of floats: a mantissa of 53 bits, or a shorter one at the least exponent. -/
structure Binary.Canonical (b : Binary) : Prop where
  short : b.mantissa < 2 * mantissaSpan
  least : leastExponent ≤ b.exponent
  greatest : b.exponent ≤ 971
  full : leastExponent < b.exponent → mantissaSpan ≤ b.mantissa

/-- The magnitude bits of a canonical magnitude. -/
def Binary.bits (b : Binary) : Nat :=
  (b.exponent - leastExponent).toNat * mantissaSpan + b.mantissa

private theorem span_eq : mantissaSpan = 2 ^ 52 := rfl

theorem canonical_of_magnitude? {x : Float} {b : Binary} (magnitude : magnitude? x = some b) :
    b.Canonical ∧ magnitudeBits x = b.bits := by
  have range : magnitudeBits x < 2 ^ 63 := Nat.mod_lt _ (by decide)
  rw [magnitude?] at magnitude
  split_ifs at magnitude with top zero
  · cases magnitude
    refine ⟨⟨?_, ?_, ?_, ?_⟩, ?_⟩ <;>
      simp only [Binary.bits, leastExponent, span_eq] at * <;> omega
  · cases magnitude
    refine ⟨⟨?_, ?_, ?_, ?_⟩, ?_⟩ <;>
      simp only [Binary.bits, leastExponent, span_eq] at * <;> omega

theorem Binary.Canonical.bits_lt {b : Binary} (canonical : b.Canonical) : b.bits < infinityBits := by
  have short := canonical.short
  have greatest := canonical.greatest
  have least := canonical.least
  simp only [Binary.bits, infinityBits, leastExponent, span_eq] at *
  omega

/-- Magnitude bits up to those of infinity are not those of a NaN, so a float keeps them. -/
theorem magnitudeBits_ofMagnitudeBits (negative : Bool) {bits : Nat}
    (bounded : bits ≤ infinityBits) : magnitudeBits (ofMagnitudeBits negative bits) = bits := by
  have limit : infinityBits = 2047 * 2 ^ 52 := rfl
  have sign : signBit = 2 ^ 63 := rfl
  generalize whole : (if negative then signBit + bits else bits) = n
  have range : n < 2 ^ 64 ∧ n % 2 ^ 63 = bits := by
    cases negative <;> simp only [Bool.false_eq_true, if_true, if_false] at whole <;> omega
  have stored : (UInt64.ofNat n).toNat = n := UInt64.toNat_ofNat_of_lt' range.1
  have valid : Format.binary64.Valid (UInt64.ofNat n).toBitVec := by
    refine ⟨fun top nonzero => absurd ?_ nonzero⟩
    have exponent : (@unpackExponent .binary64 (UInt64.ofNat n).toBitVec).toNat =
        (UInt64.ofNat n).toNat >>> 52 % 2 ^ 11 := rfl
    have mantissa : (@unpackMantissa .binary64 (UInt64.ofNat n).toBitVec).toNat =
        (UInt64.ofNat n).toNat >>> 0 % 2 ^ 52 := rfl
    rw [top, stored, Nat.shiftRight_eq_div_pow] at exponent
    rw [stored, Nat.shiftRight_zero] at mantissa
    have full : 2047 = n / 2 ^ 52 % 2 ^ 11 := exponent
    refine BitVec.eq_of_toNat_eq (mantissa.trans ?_)
    -- A full exponent leaves room for no more than the bits of infinity.
    change n % 2 ^ 52 = 0
    omega
  rw [magnitudeBits, ofMagnitudeBits, whole, toBits_ofBits valid, stored, sign]
  exact range.2

theorem isFinite_of_lt {x : Float} (below : magnitudeBits x < infinityBits) :
    isFinite x = true := by
  have field : magnitudeBits x / mantissaSpan < 2047 :=
    Nat.div_lt_of_lt_mul (by rwa [Nat.mul_comm])
  rw [isFinite, magnitude?]
  split_ifs
  · omega
  · rfl
  · rfl

theorem isFinite_of_isInf {negative : Bool} {bits : Nat} (bounded : bits ≤ infinityBits)
    (finite : (ofMagnitudeBits negative bits).isInf = false) :
    isFinite (ofMagnitudeBits negative bits) = true := by
  have kept := magnitudeBits_ofMagnitudeBits negative bounded
  rcases Nat.lt_or_eq_of_le bounded with below | rfl
  · exact isFinite_of_lt (kept.symm ▸ below)
  · have infinite : (ofMagnitudeBits negative infinityBits).isInf = true := by
      cases negative <;> rfl
    rw [infinite] at finite
    cases finite

theorem isNaN_of_magnitude? {x : Float} {b : Binary} (magnitude : magnitude? x = some b) :
    x.isNaN = false := by
  obtain ⟨⟨bits, valid⟩⟩ := x
  have field : (@unpackExponent .binary64 bits.toBitVec).toNat =
      magnitudeBits ⟨⟨bits, valid⟩⟩ / mantissaSpan := by
    have stored : (@unpackExponent .binary64 bits.toBitVec).toNat =
        bits.toNat >>> 52 % 2 ^ 11 := rfl
    rw [stored, Nat.shiftRight_eq_div_pow]
    change _ = bits.toNat % 2 ^ 63 / 2 ^ 52
    omega
  have finite : @unpackExponent .binary64 bits.toBitVec ≠ -1#11 := by
    intro top
    rw [top] at field
    have special : magnitudeBits ⟨⟨bits, valid⟩⟩ / mantissaSpan = 2047 := field.symm
    rw [magnitude?, if_pos special] at magnitude
    cases magnitude
  change (UnpackedFloat.unpack .binary64 bits.toBitVec).isNaN = false
  rw [UnpackedFloat.unpack]
  simp only [finite, if_false]
  split
  · split <;> rfl
  · rfl

end Lisp.Number
