import Mathlib.Data.Nat.Bitwise
import Mathlib.Tactic.Ring

/-!
# Bits spread apart in a word

A row of bits is cut into fields of one length and laid into a word with a blank
field after each.  Shifting the word onto itself by half a field and masking
halves the fields; shifting it back by a field doubles them.  Five such rounds
carry a number of 32 bits to every other bit of 64, and back.
-/

namespace Spacing

variable {width : Nat}

/-- A word holds a row of bits in fields of `gap` bits, a blank field after each. -/
structure Spaced (gap : Nat) (word : BitVec width) (row : Nat → Bool) : Prop where
  field : ∀ count offset, offset < gap → 2 * gap * count + offset < width →
    word.getLsbD (2 * gap * count + offset) = row (gap * count + offset)
  blank : ∀ count offset, offset < gap →
    word.getLsbD (2 * gap * count + gap + offset) = false

/-- A mask lets every other field of `gap` bits through, the lowest first. -/
def Mask (gap : Nat) (mask : BitVec width) : Prop :=
  ∀ place, place < width → mask.getLsbD place = decide (place / gap % 2 = 0)

instance (gap : Nat) (mask : BitVec width) : Decidable (Mask gap mask) :=
  inferInstanceAs (Decidable (∀ place, place < width → _))

namespace Mask

variable {gap : Nat} {mask : BitVec width}

theorem field (masks : Mask gap mask) {count offset : Nat} (inField : offset < gap)
    (inWord : 2 * gap * count + offset < width) :
    mask.getLsbD (2 * gap * count + offset) = true := by
  have place : (2 * gap * count + offset) / gap = 2 * count := by
    rw [show 2 * gap * count = gap * (2 * count) by ring,
      Nat.mul_add_div (by omega), Nat.div_eq_of_lt inField, Nat.add_zero]
  rw [masks _ inWord, place]
  simp

theorem blank (masks : Mask gap mask) {count offset : Nat} (inField : offset < gap) :
    mask.getLsbD (2 * gap * count + gap + offset) = false := by
  by_cases inWord : 2 * gap * count + gap + offset < width
  · have place : (2 * gap * count + gap + offset) / gap = 2 * count + 1 := by
      rw [show 2 * gap * count + gap = gap * (2 * count + 1) by ring,
        Nat.mul_add_div (by omega), Nat.div_eq_of_lt inField, Nat.add_zero]
    rw [masks _ inWord, place]
    simp [Nat.add_mod]
  · exact BitVec.getLsbD_of_ge _ _ (by omega)

end Mask

namespace Spaced

variable {gap : Nat} {word mask : BitVec width} {row : Nat → Bool}

/-- One round of spreading: the upper half of each field moves into the blank after it. -/
theorem halve (spaced : Spaced (2 * gap) word row) (masks : Mask gap mask) :
    Spaced gap ((word ||| word <<< gap) &&& mask) row where
  field count offset inField inWord := by
    rw [BitVec.getLsbD_and, masks.field inField inWord, Bool.and_true, BitVec.getLsbD_or,
      BitVec.getLsbD_shiftLeft, decide_eq_true inWord, Bool.true_and]
    obtain ⟨half, even | odd⟩ := Nat.even_or_odd' count
    · -- the lower half stays, and what is shifted onto it comes from a blank
      have here := spaced.field half offset (by omega)
        (by rw [even] at inWord; convert inWord using 2; ring)
      have stays : word.getLsbD (2 * gap * count + offset) = row (gap * count + offset) := by
        rw [even]; convert here using 2 <;> ring
      rw [stays]
      by_cases first : 2 * gap * count + offset < gap
      · simp [first]
      · obtain ⟨below, rfl⟩ : ∃ below, half = below + 1 := by
          cases half with
          | zero => simp [even] at first; omega
          | succ below => exact ⟨below, rfl⟩
        have none := spaced.blank below (gap + offset) (by omega)
        have shifted : word.getLsbD (2 * gap * count + offset - gap) = false := by
          rw [← none]
          congr 1
          rw [even, show 2 * gap * (2 * (below + 1)) + offset =
            2 * (2 * gap) * below + 2 * gap + (gap + offset) + gap by ring]
          exact Nat.add_sub_cancel ..
        rw [shifted, Bool.and_false, Bool.or_false]
    · -- the upper half was in the blank's place, a field further down
      have stays : word.getLsbD (2 * gap * count + offset) = false := by
        rw [← spaced.blank half offset (by omega), odd]
        congr 1; ring
      have below : 2 * gap * count + offset = 2 * (2 * gap) * half + (gap + offset) + gap := by
        rw [odd]; ring
      have shifted := spaced.field half (gap + offset) (by omega) (by omega)
      rw [stays, below, Nat.add_sub_cancel, shifted, Bool.false_or, odd,
        decide_eq_false (by omega), Bool.not_false, Bool.true_and]
      congr 1; ring
  blank count offset inField := by
    rw [BitVec.getLsbD_and, masks.blank inField, Bool.and_false]

/-- One round of gathering: every second field moves down beside the one before it. -/
theorem double (spaced : Spaced gap word row) (masks : Mask (2 * gap) mask)
    (whole : 4 * gap ∣ width) :
    Spaced (2 * gap) ((word ||| word >>> gap) &&& mask) row where
  field count offset inField inWord := by
    rw [BitVec.getLsbD_and, masks.field inField inWord, Bool.and_true, BitVec.getLsbD_or,
      BitVec.getLsbD_ushiftRight]
    by_cases lower : offset < gap
    · have stays := spaced.field (2 * count) offset lower
        (by convert inWord using 2; ring)
      have shifted := spaced.blank (2 * count) offset lower
      rw [show 2 * (2 * gap) * count + offset = 2 * gap * (2 * count) + offset by ring, stays,
        show gap + (2 * gap * (2 * count) + offset) = 2 * gap * (2 * count) + gap + offset by ring,
        shifted, Bool.or_false]
      congr 1; ring
    · obtain ⟨rest, rfl⟩ : ∃ rest, offset = gap + rest := ⟨offset - gap, by omega⟩
      have stays := spaced.blank (2 * count) rest (by omega)
      have room : 2 * gap * (2 * count + 1) + rest < width := by
        -- the field and the blank after it make up a whole part of the word
        obtain ⟨parts, width_eq⟩ := whole
        have fits : count < parts := by
          by_contra out
          have := Nat.mul_le_mul_left (4 * gap) (Nat.le_of_not_lt out)
          have : 2 * (2 * gap) * count = 4 * gap * count := by ring
          omega
        have := Nat.mul_le_mul_left (4 * gap) (show count + 1 ≤ parts from fits)
        have : 2 * gap * (2 * count + 1) = 4 * gap * count + 2 * gap := by ring
        have : 4 * gap * (count + 1) = 4 * gap * count + 4 * gap := by ring
        omega
      have shifted := spaced.field (2 * count + 1) rest (by omega) room
      rw [show 2 * (2 * gap) * count + (gap + rest) = 2 * gap * (2 * count) + gap + rest by ring,
        stays,
        show gap + (2 * gap * (2 * count) + gap + rest) = 2 * gap * (2 * count + 1) + rest by ring,
        shifted, Bool.false_or]
      congr 1; ring
  blank count offset inField := by
    rw [BitVec.getLsbD_and, masks.blank inField, Bool.and_false]

/-- Bits laid one apart stand in the even places. -/
theorem getLsbD_even (spaced : Spaced 1 word row) {place : Nat} (inWord : 2 * place < width) :
    word.getLsbD (2 * place) = row place := by
  simpa using spaced.field place 0 Nat.one_pos (by omega)

theorem getLsbD_odd (spaced : Spaced 1 word row) (place : Nat) :
    word.getLsbD (2 * place + 1) = false := by
  simpa using spaced.blank place 0 Nat.one_pos

end Spaced

/-- The greater of two numbers has a bit the other lacks, and those above are the same. -/
theorem exists_testBit_of_lt {smaller greater : Nat} (less : smaller < greater) :
    ∃ place, smaller.testBit place = false ∧ greater.testBit place = true ∧
      ∀ above, place < above → smaller.testBit above = greater.testBit above := by
  have differ : smaller ^^^ greater ≠ 0 := fun same => by
    rw [Nat.xor_eq_zero_iff] at same
    omega
  obtain ⟨place, here, above⟩ := Nat.exists_most_significant_bit differ
  have same : ∀ above, place < above → smaller.testBit above = greater.testBit above := by
    intro higher isAbove
    simpa using above higher isAbove
  rw [Nat.testBit_xor] at here
  cases low : smaller.testBit place with
  | false => exact ⟨place, low, by simpa [low] using here, same⟩
  | true =>
    have high : greater.testBit place = false := by simpa [low] using here
    have := Nat.lt_of_testBit place high low fun above isAbove => (same above isAbove).symm
    omega

end Spacing
