import Mathlib

/-!
# The order of the doubles

Doubles are compared by sign, exponent and mantissa, in that order, and a double
that is not a number compares with nothing.  Every other double has a rank in a
linear order, and comparing two of them is comparing their ranks.  The two zeros
share one rank.
-/

namespace FloatOrder

open Float.Model

/-- Where a double falls: the class it belongs to, from negative infinity to
positive, then its exponent and its mantissa, turned over for the negative. -/
abbrev Rank := ℤ ×ₗ ℤ ×ₗ ℤ

/-- The rank of a double taken apart. -/
def rankUnpacked : UnpackedFloat → Option Rank
  | .notANumber => none
  | .infinity .negative => some (toLex (-2, toLex (0, 0)))
  | .finite .negative mantissa exponent _ =>
    some (toLex (-1, toLex (-exponent, -mantissa)))
  | .zero _ => some (toLex (0, toLex (0, 0)))
  | .finite .positive mantissa exponent _ =>
    some (toLex (1, toLex (exponent, mantissa)))
  | .infinity .positive => some (toLex (2, toLex (0, 0)))

/-- The rank of a double, which only what is not a number lacks. -/
def rank (number : Float) : Option Rank := rankUnpacked number.toModel.unpack

/-- Compares two doubles, as far as they compare. -/
def partialCmp (left right : Float) : Option Ordering :=
  Float.Model.compare left.toModel right.toModel

private theorem compare_toLex (first first' second second' third third' : ℤ) :
    compare (toLex (first, toLex (second, third)))
        (toLex (first', toLex (second', third')) : Rank) =
      (compare first first').then ((compare second second').then
        (compare third third')) := rfl

private theorem compare_neg (left right : ℤ) :
    compare (-left) (-right) = (compare left right).swap := by
  rcases lt_trichotomy left right with less | rfl | greater
  · rw [compare_lt_iff_lt.mpr less, compare_gt_iff_gt.mpr (by omega)]
    rfl
  · simp
  · rw [compare_gt_iff_gt.mpr greater, compare_lt_iff_lt.mpr (by omega)]
    rfl

private theorem compare_natCast (left right : ℕ) :
    compare (left : ℤ) (right : ℤ) = compare left right := by
  rcases lt_trichotomy left right with less | rfl | greater
  · rw [compare_lt_iff_lt.mpr less, compare_lt_iff_lt.mpr (by omega)]
  · simp
  · rw [compare_gt_iff_gt.mpr greater, compare_gt_iff_gt.mpr (by omega)]

/-- Comparing doubles taken apart is comparing their ranks. -/
theorem compare_unpacked (left right : UnpackedFloat) :
    left.compare right =
      match rankUnpacked left, rankUnpacked right with
      | some left, some right => some (compare left right)
      | _, _ => none := by
  rcases left with (_ | _) | _ | sign | ⟨_ | _, mantissa, exponent, positive⟩ <;>
    rcases right with (_ | _) | _ | sign' | ⟨_ | _, mantissa', exponent', positive'⟩ <;>
    try rfl
  -- what is left are the pairs of finite doubles of one sign
  · simp only [UnpackedFloat.compare, rankUnpacked, compare_toLex, compare_neg,
      compare_natCast, Ordering.swap_then]
    simp
  · simp only [UnpackedFloat.compare, rankUnpacked, compare_toLex, compare_natCast]
    simp

theorem partialCmp_eq (left right : Float) :
    partialCmp left right =
      match rank left, rank right with
      | some left, some right => some (compare left right)
      | _, _ => none :=
  compare_unpacked _ _

/-! ## What is a number -/

theorem rank_isSome (number : Float) : (rank number).isSome = !number.isNaN := by
  simp only [rank, Float.isNaN, Float.Model.isNaN]
  rcases number.toModel.unpack with (_ | _) | _ | _ | ⟨_ | _, _, _, _⟩ <;> rfl

theorem ofNat_ne_neg_one {width number : ℕ} (small : number + 1 < 2 ^ width) :
    BitVec.ofNat width number ≠ -1 := by
  intro same
  have bits := congrArg BitVec.toNat same
  simp only [BitVec.toNat_ofNat, BitVec.toNat_neg, BitVec.ofNat_eq_ofNat] at bits
  rw [Nat.mod_eq_of_lt (by omega), Nat.mod_eq_of_lt (show 1 < 2 ^ width by omega),
    Nat.mod_eq_of_lt (by omega)] at bits
  omega

section Packing

variable {spec : Format} {sign : UnpackedFloat.Sign}

theorem unpack_ne_of_exponent {exponent : BitVec spec.exponentBits}
    {mantissa : BitVec spec.mantissaBitsWithoutImplicit} (small : exponent ≠ -1) :
    UnpackedFloat.unpack spec (UnpackedFloat.packComponents spec sign exponent mantissa) ≠
      .notANumber := by
  rw [UnpackedFloat.unpack.eq_1, UnpackedFloat.unpackExponent_packComponents,
    if_neg (by simpa using small)]
  split
  · split <;> simp
  · simp

theorem unpack_infinity_ne :
    UnpackedFloat.unpack spec (UnpackedFloat.packedInfinity spec sign) ≠ .notANumber := by
  rw [UnpackedFloat.unpack.eq_1, UnpackedFloat.packedInfinity,
    if_pos UnpackedFloat.unpackExponent_packComponents,
    if_pos (by rw [UnpackedFloat.unpackMantissa_packComponents]; rfl)]
  simp

/-- Packing what is a number makes a number. -/
theorem unpack_pack_ne {number : UnpackedFloat} (isNumber : number ≠ .notANumber) :
    UnpackedFloat.unpack spec (UnpackedFloat.pack spec number) ≠ .notANumber := by
  have zero_ne : (0 : BitVec spec.exponentBits) ≠ -1 :=
    ofNat_ne_neg_one (Nat.one_lt_two_pow spec.he.ne')
  cases number with
  | notANumber => exact absurd rfl isNumber
  | infinity sign => exact unpack_infinity_ne
  | zero sign => exact unpack_ne_of_exponent zero_ne
  | finite sign mantissa exponent positive =>
    simp only [UnpackedFloat.pack]
    split
    · exact unpack_infinity_ne
    · rename_i small
      split
      · exact unpack_ne_of_exponent (ofNat_ne_neg_one (Nat.lt_of_not_le small))
      · exact unpack_ne_of_exponent zero_ne

theorem round_ne (mantissa : ℕ) (exponent : ℤ) :
    UnpackedFloat.round spec sign mantissa exponent ≠ .notANumber := by
  simp only [UnpackedFloat.round, UnpackedFloat.roundWithAccuracy]
  split <;> simp

end Packing

/-- A whole number is a number. -/
theorem rank_toFloat (number : UInt64) : (rank number.toFloat).isSome := by
  have isNumber : UnpackedFloat.ofUInt64 Format.binary64 number ≠ .notANumber := by
    simp only [UnpackedFloat.ofUInt64, UnpackedFloat.ofNat, UnpackedFloat.ofInt,
      UnpackedFloat.normalize]
    split
    · exact round_ne _ _
    · simp
    · exact round_ne _ _
  rw [rank_isSome, Float.isNaN, Float.Model.isNaN, Bool.not_eq_true',
    Bool.eq_false_iff, ne_eq, UnpackedFloat.isNaN_iff]
  exact unpack_pack_ne isNumber

end FloatOrder
