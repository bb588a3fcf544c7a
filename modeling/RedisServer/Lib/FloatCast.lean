import Mathlib

/-!
# Casting a double to a machine word

A double is cast to 64 bits by dropping what comes after the point; what is too
great or too small for the word is given the nearest it holds.  What is cast has no
more significant bits than a double has: 53 of them.  A whole number of that many bits
is a double itself.
-/

namespace FloatCast

open Float.Model Float.Model.UnpackedFloat

/-- Shifting right divides the mantissa by a power of two. -/
theorem mantissa_shiftRight (extended : ExtendedMantissa) (count : Nat) :
    (extended >>> count).mantissa = extended.mantissa / 2 ^ count := by
  induction count with
  | zero => exact (Nat.div_one _).symm
  | succ count ih =>
    have once : (extended >>> (count + 1)).mantissa = (extended >>> count).mantissa / 2 := rfl
    rw [once, ih, Nat.pow_succ, Nat.div_div_eq_div_mul]

/-- Rounding towards zero shifts the mantissa up by the exponent, or down by it. -/
theorem roundToInt_eq (sign : Sign) (mantissa : Nat) (exponent : Int) :
    roundToInt sign mantissa exponent =
      sign.apply (mantissa * 2 ^ exponent.toNat / 2 ^ (-exponent).toNat : Nat) := by
  have shift : (0 - (exponent - (exponent.toNat : Int))).toNat = (-exponent).toNat := by omega
  simp only [roundToInt, decreaseExponent, shiftToExponent, mantissa_shiftRight, sub_zero, shift,
    ExtendedMantissa.ofMantissaAndAccuracy, Nat.shiftLeft_eq]

/-- The mantissa of a double has 53 bits, the highest of them set unless the exponent
is the least there is. -/
theorem unpack_bounds {bits : BitVec Format.binary64.numBits} {sign : Sign} {mantissa : Nat}
    {exponent : Int} {positive : 0 < mantissa}
    (unpacked : UnpackedFloat.unpack Format.binary64 bits =
      .finite sign mantissa exponent positive) :
    mantissa < 2 ^ 53 ∧ (2 ^ 52 ≤ mantissa ∨ exponent = -1074) := by
  have small : (unpackMantissa bits).toNat < 2 ^ 52 := (unpackMantissa bits).isLt
  simp only [UnpackedFloat.unpack] at unpacked
  split at unpacked
  · split at unpacked <;> cases unpacked
  · split at unpacked
    · rename_i lowest
      split at unpacked
      · cases unpacked
      · injection unpacked with _ mantissa_eq exponent_eq
        refine ⟨by omega, .inr ?_⟩
        rw [← exponent_eq, lowest]
        simp [Format.exponentBias]
    · injection unpacked with _ mantissa_eq exponent_eq
      rw [BitVec.toNat_append, ← Nat.shiftLeft_add_eq_or_of_lt small] at mantissa_eq
      simp only [BitVec.toNat_ofNat, Nat.shiftLeft_eq] at mantissa_eq
      omega

/-- The parts of the least double too great for 64 bits. -/
theorem unpack_limit : (18446744073709551616 : Float).toModel.unpack =
    .finite .positive (2 ^ 52) 12 (by decide) := by
  rfl

theorem lt_iff (left right : Float) :
    left < right ↔ left.toModel.unpack.lt right.toModel.unpack = true :=
  decide_eq_true_iff

/-- Whether a number taken apart lies below the limit. -/
theorem lt_limit_iff {sign : Sign} {mantissa : Nat} {exponent : Int} {positive : 0 < mantissa}
    (bounds : 2 ^ 52 ≤ mantissa ∨ exponent = -1074) :
    (UnpackedFloat.finite sign mantissa exponent positive).lt
      (.finite .positive (2 ^ 52) 12 (by decide)) = true ↔
      sign = .negative ∨ exponent < 12 := by
  cases sign with
  | negative => simp [UnpackedFloat.lt, UnpackedFloat.compare]
  | positive =>
    simp only [UnpackedFloat.lt, UnpackedFloat.compare, beq_iff_eq, Option.some.injEq,
      Ordering.then_eq_lt, Int.compare_eq_lt, Int.compare_eq_eq, Nat.compare_eq_lt]
    simp
    omega

theorem clamp_toNat (number : Nat) :
    (UInt64.ofNatClamp number).toNat = min number (2 ^ 64 - 1) := by
  rw [UInt64.ofNatClamp]
  split
  · rename_i small
    rw [UInt64.toNat_ofNatLT]
    simp only [UInt64.size] at small
    omega
  · rename_i great
    rw [UInt64.toNat_ofNatLT]
    simp only [UInt64.size] at great ⊢
    omega

/-- A number that is not below the limit casts to the greatest word. -/
theorem toUInt64_of_not_lt {number : Float} (isNumber : number.isNaN = false)
    (great : ¬ number < 18446744073709551616) : number.toUInt64.toNat = 2 ^ 64 - 1 := by
  rw [lt_iff, unpack_limit] at great
  have isNumber : number.toModel.unpack.isNaN = false := isNumber
  change (UInt64.ofNatClamp (number.toModel.unpack.toInt 0 (UInt64.size - 1)).toNat).toNat = _
  rw [clamp_toNat]
  rcases parts : number.toModel.unpack with
    ⟨_ | _⟩ | _ | sign | ⟨sign, mantissa, exponent, positive⟩
  · rw [parts] at great
    exact absurd rfl great
  · rfl
  · rw [parts] at isNumber
    cases isNumber
  · rw [parts] at great
    exact absurd rfl great
  · have bounds := unpack_bounds parts
    rw [parts, lt_limit_iff bounds.2, not_or] at great
    obtain ⟨notNegative, far⟩ := great
    obtain rfl : sign = .positive := by cases sign <;> simp_all
    have least : 2 ^ 52 * 2 ^ 12 ≤ mantissa * 2 ^ exponent.toNat :=
      Nat.mul_le_mul (by omega) (Nat.pow_le_pow_right (by decide) (by omega))
    rw [UnpackedFloat.toInt, roundToInt_eq, show (-exponent).toNat = 0 by omega]
    simp only [Sign.apply, Int.toNat_natCast, Nat.pow_zero, Nat.div_one]
    omega

/-- What a number below the limit casts to has at most 53 significant bits. -/
theorem toUInt64_of_lt {number : Float} (small : number < 18446744073709551616) :
    ∃ mantissa shift, mantissa < 2 ^ 53 ∧ number.toUInt64.toNat = mantissa * 2 ^ shift := by
  rw [lt_iff, unpack_limit] at small
  change ∃ mantissa shift, _ ∧
    (UInt64.ofNatClamp (number.toModel.unpack.toInt 0 (UInt64.size - 1)).toNat).toNat = _
  rw [clamp_toNat]
  rcases parts : number.toModel.unpack with
    ⟨_ | _⟩ | _ | sign | ⟨_ | _, mantissa, exponent, positive⟩
  · exact ⟨0, 0, by decide, rfl⟩
  · rw [parts] at small
    cases small
  · exact ⟨0, 0, by decide, rfl⟩
  · exact ⟨0, 0, by decide, rfl⟩
  · refine ⟨0, 0, by decide, ?_⟩
    rw [UnpackedFloat.toInt, roundToInt_eq]
    generalize mantissa * 2 ^ exponent.toNat / 2 ^ (-exponent).toNat = size
    simp only [Sign.apply]
    omega
  · obtain ⟨narrow, high⟩ := unpack_bounds parts
    rw [parts, lt_limit_iff high] at small
    have near : exponent < 12 := by simpa using small
    have fits : mantissa * 2 ^ exponent.toNat ≤ (2 ^ 53 - 1) * 2 ^ 11 :=
      Nat.mul_le_mul (by omega) (Nat.pow_le_pow_right (by decide) (by omega))
    rw [UnpackedFloat.toInt, roundToInt_eq]
    simp only [Sign.apply, Int.toNat_natCast]
    by_cases whole : 0 ≤ exponent
    · refine ⟨mantissa, exponent.toNat, narrow, ?_⟩
      rw [show (-exponent).toNat = 0 by omega, Nat.pow_zero, Nat.div_one]
      omega
    · refine ⟨mantissa / 2 ^ (-exponent).toNat, 0,
        (Nat.div_le_self _ _).trans_lt narrow, ?_⟩
      rw [show exponent.toNat = 0 by omega, Nat.pow_zero, Nat.mul_one, Nat.mul_one]
      have := Nat.div_le_self mantissa (2 ^ (-exponent).toNat)
      omega

/-! ## Whole numbers -/

theorem log2_of_bounds {mantissa : Nat} (low : 2 ^ 52 ≤ mantissa) (high : mantissa < 2 ^ 53) :
    mantissa.log2 = 52 :=
  (Nat.log2_eq_iff (by omega)).mpr ⟨low, high⟩

/-- A mantissa of 53 bits stands where it should. -/
theorem shiftToTargetExponent_normal {mantissa : Nat} {exponent : Int} (low : 2 ^ 52 ≤ mantissa)
    (high : mantissa < 2 ^ 53) (least : -1074 ≤ exponent) :
    shiftToTargetExponent Format.binary64 mantissa exponent .exact =
      (⟨mantissa, false, false⟩, exponent) := by
  have target : Format.binary64.targetExponent (totalExponent mantissa exponent) = exponent := by
    simp only [Format.targetExponent, totalExponent, log2_of_bounds low high, Format.mantissaBits,
      Format.minExponent]
    omega
  have shift : (exponent - exponent).toNat = 0 := by omega
  simp only [shiftToTargetExponent, shiftToExponent, target, shift]
  exact Prod.ext rfl (Int.add_zero exponent)

theorem round_normal (sign : Sign) {mantissa : Nat} {exponent : Int} (low : 2 ^ 52 ≤ mantissa)
    (high : mantissa < 2 ^ 53) (least : -1074 ≤ exponent) :
    roundWithAccuracy Format.binary64 sign mantissa exponent .exact =
      .finite sign mantissa exponent (by omega) := by
  have rounded : (ExtendedMantissa.mk mantissa false false).roundedMantissa = mantissa := rfl
  simp only [roundWithAccuracy, shiftToTargetExponent_normal low high least, rounded]
  exact dif_neg (by omega)

theorem unpackSign_positive {spec : Format} {exponent : BitVec spec.exponentBits}
    {mantissa : BitVec spec.mantissaBitsWithoutImplicit} :
    Sign.ofBitVec (unpackSign (packComponents spec .positive exponent mantissa)) = .positive := by
  have clear : unpackSign (packComponents spec .positive exponent mantissa) = 0#1 := by
    ext place inWord
    obtain rfl : place = 0 := by omega
    simp [unpackSign, packComponents, BitVec.getLsbD_append, BitVec.getElem_append, Sign.toBitVec]
  rw [clear]
  rfl

/-- Packing loses nothing of a mantissa of 53 bits. -/
theorem unpack_pack_normal {mantissa : Nat} {exponent : Int} (low : 2 ^ 52 ≤ mantissa)
    (high : mantissa < 2 ^ 53) (least : -1074 < exponent) (greatest : exponent ≤ 0) :
    UnpackedFloat.unpack Format.binary64
      (UnpackedFloat.pack Format.binary64 (.finite .positive mantissa exponent (by omega))) =
      .finite .positive mantissa exponent (by omega) := by
  obtain ⟨biased, biased_eq⟩ : ∃ biased : Nat, exponent + 1023 + 52 = biased :=
    ⟨(exponent + 1023 + 52).toNat, by omega⟩
  have packed : UnpackedFloat.pack Format.binary64
      (.finite .positive mantissa exponent (by omega)) =
      packComponents Format.binary64 .positive (BitVec.ofNat _ biased)
        (BitVec.ofNat _ mantissa) := by
    have bias : (exponent + Format.binary64.exponentBias +
        Format.binary64.mantissaBitsWithoutImplicit).toNat = biased := by
      change (exponent + 1023 + 52).toNat = biased
      omega
    simp only [UnpackedFloat.pack, bias]
    rw [if_neg (by omega),
      if_pos (by rw [log2_of_bounds low high]; rfl)]
  have exponent_toNat : (BitVec.ofNat 11 biased).toNat = biased := by
    rw [BitVec.toNat_ofNat, Nat.mod_eq_of_lt (by omega)]
  have notLast : BitVec.ofNat 11 biased ≠ -1#11 := fun same => by
    have := congrArg BitVec.toNat same
    rw [exponent_toNat] at this
    simp at this
    omega
  have notFirst : BitVec.ofNat 11 biased ≠ 0#11 := fun same => by
    have := congrArg BitVec.toNat same
    rw [exponent_toNat] at this
    simp at this
    omega
  have implicit : (1#1 ++ BitVec.ofNat 52 mantissa).toNat = mantissa := by
    rw [BitVec.toNat_append, ← Nat.shiftLeft_add_eq_or_of_lt (BitVec.isLt _), BitVec.toNat_ofNat]
    simp only [BitVec.toNat_ofNat, Nat.shiftLeft_eq]
    omega
  rw [packed, UnpackedFloat.unpack.eq_1]
  simp only [unpackExponent_packComponents, unpackMantissa_packComponents, unpackSign_positive]
  rw [if_neg notLast, if_neg notFirst]
  congr 1
  rw [exponent_toNat]
  change (biased : Int) - (1023 + 52) = exponent
  omega

/-- A whole number of no more than 53 bits is shifted up to all of them. -/
theorem ofNat_eq {number : Nat} (positive : 0 < number) (small : number < 2 ^ 53) :
    ∃ shift : Nat, ∃ low : 2 ^ 52 ≤ number * 2 ^ shift, number * 2 ^ shift < 2 ^ 53 ∧ shift ≤ 52 ∧
      UnpackedFloat.ofNat Format.binary64 number =
        .finite .positive (number * 2 ^ shift) (-shift) (by omega) := by
  have few : number.log2 ≤ 52 := Nat.lt_succ_iff.mp ((Nat.log2_lt (by omega)).mpr small)
  obtain ⟨shift, shift_eq⟩ : ∃ shift, number.log2 + shift = 52 := ⟨52 - number.log2, by omega⟩
  have low : 2 ^ 52 ≤ number * 2 ^ shift := by
    rw [← shift_eq, pow_add]
    exact Nat.mul_le_mul_right _ (Nat.log2_self_le (by omega))
  have high : number * 2 ^ shift < 2 ^ 53 := by
    rw [show 53 = number.log2 + 1 + shift by omega, pow_add]
    exact Nat.mul_lt_mul_of_pos_right Nat.lt_log2_self (by positivity)
  have target : Format.binary64.targetExponent (totalExponent number 0) = -(shift : Int) := by
    simp only [Format.targetExponent, totalExponent, Format.mantissaBits, Format.minExponent]
    omega
  have decreased : decreaseExponent number 0 (-(shift : Int)) =
      (number * 2 ^ shift, -(shift : Int)) := by
    rw [decreaseExponent, show (0 - -(shift : Int)).toNat = shift by omega, Nat.shiftLeft_eq,
      zero_sub]
  have signed : compare (number : Int) 0 = .gt := compare_gt_iff_gt.mpr (by omega)
  refine ⟨shift, low, high, by omega, ?_⟩
  rw [UnpackedFloat.ofNat, UnpackedFloat.ofInt, UnpackedFloat.normalize, signed]
  simp only [UnpackedFloat.round, Int.toNat_natCast, target, decreased]
  exact round_normal .positive low high (by omega)

/-- A whole number of no more than 53 bits is a double, and casts back to itself. -/
theorem toUInt64_toFloat {number : UInt64} (small : number.toNat < 2 ^ 53) :
    number.toFloat.toUInt64 = number := by
  by_cases zero : number = 0
  · rw [zero]
    rfl
  · have positive : 0 < number.toNat := Nat.pos_of_ne_zero fun none =>
      zero (UInt64.toNat_inj.mp none)
    obtain ⟨shift, low, high, few, parts⟩ := ofNat_eq positive small
    have unpacked : number.toFloat.toModel.unpack =
        .finite .positive (number.toNat * 2 ^ shift) (-shift) (by omega) := by
      change UnpackedFloat.unpack Format.binary64
        (UnpackedFloat.pack Format.binary64 (UnpackedFloat.ofNat Format.binary64 number.toNat)) = _
      rw [parts]
      exact unpack_pack_normal low high (by omega) (by omega)
    apply UInt64.toNat_inj.mp
    change (UInt64.ofNatClamp (number.toFloat.toModel.unpack.toInt 0 (UInt64.size - 1)).toNat).toNat
      = _
    rw [clamp_toNat, unpacked, UnpackedFloat.toInt, roundToInt_eq,
      show (-(shift : Int)).toNat = 0 by omega, show (- -(shift : Int)).toNat = shift by omega,
      Nat.pow_zero, Nat.mul_one, Nat.mul_div_cancel _ (by positivity)]
    simp only [Sign.apply, Int.toNat_natCast]
    omega

end FloatCast
