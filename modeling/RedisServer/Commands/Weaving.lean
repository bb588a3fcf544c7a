import RedisServer.Commands.Geo
import RedisServer.Lib.Spacing

/-!
# Weaving the numbers of a square into one

What each bit of a spread or gathered number is, and what follows of the two
woven together: either can be gathered up again, every number of 64 bits is woven
of two, and the woven number grows with either of its halves.
-/

namespace RedisServer.Geo

open Spacing

/-- What two numbers are woven into: the first in the even bits, the second in the
odd ones. -/
def weave (north east : UInt32) : UInt64 := spread north ||| (spread east <<< 1)

/-! ## Bits -/

theorem spread_spaced (value : UInt32) :
    Spaced 1 (spread value).toBitVec value.toBitVec.getLsbD := by
  have start : Spaced 32 value.toUInt64.toBitVec value.toBitVec.getLsbD :=
    { field := fun count offset inField inWord => by
        obtain rfl : count = 0 := by omega
        simp [show offset < 64 by omega]
      blank := fun count offset inField => by
        simp [BitVec.getLsbD_of_ge value.toBitVec (2 * 32 * count + 32 + offset) (by omega)] }
  exact ((((start.halve (show Mask 16 (0x0000FFFF0000FFFF#64) by decide +kernel)).halve
    (show Mask 8 (0x00FF00FF00FF00FF#64) by decide +kernel)).halve
    (show Mask 4 (0x0F0F0F0F0F0F0F0F#64) by decide +kernel)).halve
    (show Mask 2 (0x3333333333333333#64) by decide +kernel)).halve
    (show Mask 1 (0x5555555555555555#64) by decide +kernel)

theorem getLsbD_spread_even (value : UInt32) (place : Nat) :
    (spread value).toBitVec.getLsbD (2 * place) = value.toBitVec.getLsbD place := by
  by_cases inWord : 2 * place < 64
  · exact (spread_spaced value).getLsbD_even inWord
  · rw [BitVec.getLsbD_of_ge _ _ (by omega), BitVec.getLsbD_of_ge _ _ (by omega)]

theorem getLsbD_spread_odd (value : UInt32) (place : Nat) :
    (spread value).toBitVec.getLsbD (2 * place + 1) = false :=
  (spread_spaced value).getLsbD_odd place

/-- Masked with every other bit, a number holds its even bits one apart. -/
theorem masked_spaced (woven : UInt64) :
    Spaced 1 (woven &&& 0x5555555555555555).toBitVec
      fun place => woven.toBitVec.getLsbD (2 * place) where
  field count offset inField inWord := by
    obtain rfl : offset = 0 := by omega
    have passes : (0x5555555555555555#64).getLsbD (2 * 1 * count + 0) = true :=
      Mask.field (by decide +kernel) inField inWord
    rw [UInt64.toBitVec_and, BitVec.getLsbD_and]
    simpa using fun _ => passes
  blank count offset inField := by
    have stopped : (0x5555555555555555#64).getLsbD (2 * 1 * count + 1 + offset) = false :=
      Mask.blank (by decide +kernel) inField
    rw [UInt64.toBitVec_and, BitVec.getLsbD_and]
    simpa using fun _ => stopped

/-- Bit by bit, what is gathered up is the even bits of the number. -/
theorem getLsbD_gather (woven : UInt64) {place : Nat} (inWord : place < 32) :
    (gather woven).toBitVec.getLsbD place = woven.toBitVec.getLsbD (2 * place) := by
  have rounds := (((((masked_spaced woven).double
    (show Mask 2 (0x3333333333333333#64) by decide +kernel) (by decide)).double
    (show Mask 4 (0x0F0F0F0F0F0F0F0F#64) by decide +kernel) (by decide)).double
    (show Mask 8 (0x00FF00FF00FF00FF#64) by decide +kernel) (by decide)).double
    (show Mask 16 (0x0000FFFF0000FFFF#64) by decide +kernel) (by decide)).double
    (show Mask 32 (0x00000000FFFFFFFF#64) by decide +kernel) (by decide)
  have bit := rounds.field 0 place inWord (by omega)
  simp only [Nat.mul_zero, Nat.zero_add] at bit
  rw [← bit, gather, UInt64.toBitVec_toUInt32, BitVec.getLsbD_setWidth, decide_eq_true inWord,
    Bool.true_and]
  rfl

/-- Numbers of 64 bits are the same when their even and their odd bits are. -/
theorem eq_of_bits {left right : UInt64}
    (even : ∀ place, left.toBitVec.getLsbD (2 * place) = right.toBitVec.getLsbD (2 * place))
    (odd : ∀ place,
      left.toBitVec.getLsbD (2 * place + 1) = right.toBitVec.getLsbD (2 * place + 1)) :
    left = right := by
  refine UInt64.toBitVec_inj.mp (BitVec.eq_of_getLsbD_eq fun place _ => ?_)
  obtain ⟨half, rfl | rfl⟩ := Nat.even_or_odd' place
  · exact even half
  · exact odd half

theorem getLsbD_weave_even (north east : UInt32) (place : Nat) :
    (weave north east).toBitVec.getLsbD (2 * place) = north.toBitVec.getLsbD place := by
  have shifted : ((spread east).toBitVec <<< 1).getLsbD (2 * place) = false := by
    rw [BitVec.getLsbD_shiftLeft]
    cases place with
    | zero => rfl
    | succ below =>
      rw [show 2 * (below + 1) - 1 = 2 * below + 1 by omega, getLsbD_spread_odd,
        Bool.and_false]
  rw [weave, UInt64.toBitVec_or, BitVec.getLsbD_or, getLsbD_spread_even]
  exact (congrArg _ shifted).trans (Bool.or_false _)

theorem getLsbD_weave_odd (north east : UInt32) (place : Nat) :
    (weave north east).toBitVec.getLsbD (2 * place + 1) = east.toBitVec.getLsbD place := by
  have shifted : ((spread east).toBitVec <<< 1).getLsbD (2 * place + 1) =
      east.toBitVec.getLsbD place := by
    rw [BitVec.getLsbD_shiftLeft, Nat.add_sub_cancel, getLsbD_spread_even]
    by_cases inWord : place < 32
    · simp [show 2 * place + 1 < 64 by omega]
    · rw [BitVec.getLsbD_of_ge _ _ (by omega), Bool.and_false]
  rw [weave, UInt64.toBitVec_or, BitVec.getLsbD_or, getLsbD_spread_odd]
  exact (Bool.false_or _).trans shifted

theorem getLsbD_shiftRight_one (woven : UInt64) (place : Nat) :
    (woven >>> 1).toBitVec.getLsbD place = woven.toBitVec.getLsbD (place + 1) := by
  have bit := BitVec.getLsbD_ushiftRight woven.toBitVec 1 place
  rw [Nat.add_comm] at bit
  exact bit

/-! ## There and back -/

theorem gather_weave (north east : UInt32) : gather (weave north east) = north := by
  refine UInt32.toBitVec_inj.mp (BitVec.eq_of_getLsbD_eq fun place inWord => ?_)
  rw [getLsbD_gather _ inWord, getLsbD_weave_even]

theorem gather_weave_shiftRight (north east : UInt32) :
    gather (weave north east >>> 1) = east := by
  refine UInt32.toBitVec_inj.mp (BitVec.eq_of_getLsbD_eq fun place inWord => ?_)
  rw [getLsbD_gather _ inWord, getLsbD_shiftRight_one, getLsbD_weave_odd]

theorem weave_gather (woven : UInt64) :
    weave (gather woven) (gather (woven >>> 1)) = woven := by
  refine eq_of_bits (fun place => ?_) fun place => ?_
  · rw [getLsbD_weave_even]
    by_cases inWord : place < 32
    · exact getLsbD_gather woven inWord
    · rw [BitVec.getLsbD_of_ge _ _ (by omega), BitVec.getLsbD_of_ge _ _ (by omega)]
  · rw [getLsbD_weave_odd]
    by_cases inWord : place < 32
    · rw [getLsbD_gather _ inWord, getLsbD_shiftRight_one]
    · rw [BitVec.getLsbD_of_ge _ _ (by omega), BitVec.getLsbD_of_ge _ _ (by omega)]

/-! ## Order -/

/-- A number of 64 bits lies below another that has a bit it lacks, the bits above
being the same. -/
theorem lt_of_bits {left right : UInt64} (place : Nat)
    (lacks : left.toBitVec.getLsbD place = false) (has : right.toBitVec.getLsbD place = true)
    (same : ∀ above, place < above →
      left.toBitVec.getLsbD above = right.toBitVec.getLsbD above) :
    left < right := by
  rw [UInt64.lt_iff_toNat_lt]
  exact Nat.lt_of_testBit place lacks has same

/-- The first bit to tell two numbers of 32 bits apart. -/
theorem exists_bit_of_lt {smaller greater : UInt32} (less : smaller < greater) :
    ∃ place, smaller.toBitVec.getLsbD place = false ∧ greater.toBitVec.getLsbD place = true ∧
      ∀ above, place < above →
        smaller.toBitVec.getLsbD above = greater.toBitVec.getLsbD above :=
  exists_testBit_of_lt (UInt32.lt_iff_toNat_lt.mp less)

theorem weave_lt_of_north_lt {smaller greater : UInt32} (east : UInt32)
    (less : smaller < greater) : weave smaller east < weave greater east := by
  obtain ⟨place, lacks, has, same⟩ := exists_bit_of_lt less
  refine lt_of_bits (2 * place) ?_ ?_ fun above isAbove => ?_
  · rw [getLsbD_weave_even, lacks]
  · rw [getLsbD_weave_even, has]
  · obtain ⟨half, rfl | rfl⟩ := Nat.even_or_odd' above
    · rw [getLsbD_weave_even, getLsbD_weave_even, same half (by omega)]
    · rw [getLsbD_weave_odd, getLsbD_weave_odd]

theorem weave_lt_of_east_lt {smaller greater : UInt32} (north : UInt32)
    (less : smaller < greater) : weave north smaller < weave north greater := by
  obtain ⟨place, lacks, has, same⟩ := exists_bit_of_lt less
  refine lt_of_bits (2 * place + 1) ?_ ?_ fun above isAbove => ?_
  · rw [getLsbD_weave_odd, lacks]
  · rw [getLsbD_weave_odd, has]
  · obtain ⟨half, rfl | rfl⟩ := Nat.even_or_odd' above
    · rw [getLsbD_weave_even, getLsbD_weave_even]
    · rw [getLsbD_weave_odd, getLsbD_weave_odd, same half (by omega)]

theorem spread_lt {smaller greater : UInt32} (less : smaller < greater) :
    spread smaller < spread greater := by
  obtain ⟨place, lacks, has, same⟩ := exists_bit_of_lt less
  refine lt_of_bits (2 * place) ?_ ?_ fun above isAbove => ?_
  · rw [getLsbD_spread_even, lacks]
  · rw [getLsbD_spread_even, has]
  · obtain ⟨half, rfl | rfl⟩ := Nat.even_or_odd' above
    · rw [getLsbD_spread_even, getLsbD_spread_even, same half (by omega)]
    · rw [getLsbD_spread_odd, getLsbD_spread_odd]

/-- Weaving is a bijection: two numbers of 32 bits are gathered up again from what they
are woven into, and every number of 64 bits is woven of two.  Spreading puts each bit
in twice its place, and keeps order. -/
theorem weaving_bijective :
    (∀ a b : UInt32, gather (spread a ||| (spread b <<< 1)) = a ∧
      gather ((spread a ||| (spread b <<< 1)) >>> 1) = b) ∧
    (∀ w : UInt64, spread (gather w) ||| (spread (gather (w >>> 1)) <<< 1) = w) ∧
    (∀ (a : UInt32) (i : Nat), (spread a).toNat.testBit (2 * i) = a.toNat.testBit i ∧
      (spread a).toNat.testBit (2 * i + 1) = false) ∧
    (∀ a b : UInt32, a < b → spread a < spread b) :=
  ⟨fun a b => ⟨gather_weave a b, gather_weave_shiftRight a b⟩, weave_gather,
    fun a i => ⟨getLsbD_spread_even a i, getLsbD_spread_odd a i⟩, fun _ _ => spread_lt⟩

end RedisServer.Geo
