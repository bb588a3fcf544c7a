import Mathlib

/-!
# LZF

A string squeezed by LZF is a list of instructions: write these bytes, or write again a
stretch of what has been written.  A stretch may reach into what it is itself writing, and
then goes round and round.
-/

namespace Lzf

/-- One instruction. -/
inductive Step where
  | run (bytes : List UInt8)
  | again (length distance : Nat)
  deriving DecidableEq, Repr

/-- So many bytes, going round the last ones written. -/
def stretch (out : List UInt8) (distance length : Nat) : List UInt8 :=
  (List.range length).map fun index => out.getD (out.length - distance + index % distance) 0

namespace Step

/-- Whether the instruction can be laid out, and does not reach back past the start. -/
def Proper (out : List UInt8) : Step → Prop
  | .run bytes => 1 ≤ bytes.length ∧ bytes.length ≤ 32
  | .again length distance =>
    (3 ≤ length ∧ length ≤ 264) ∧ (1 ≤ distance ∧ distance ≤ 8192) ∧ distance ≤ out.length

instance (out : List UInt8) : DecidablePred (Proper out)
  | .run bytes => inferInstanceAs (Decidable (1 ≤ bytes.length ∧ bytes.length ≤ 32))
  | .again length distance => inferInstanceAs (Decidable
      ((3 ≤ length ∧ length ≤ 264) ∧ (1 ≤ distance ∧ distance ≤ 8192) ∧ distance ≤ out.length))

/-- What has been written once the instruction has been followed. -/
def write (out : List UInt8) : Step → List UInt8
  | .run bytes => out ++ bytes
  | .again length distance => out ++ stretch out distance length

/-- The bytes an instruction is stored in.  A length that does not fit in three bits spills
into a byte of its own. -/
def layout : Step → List UInt8
  | .run bytes => UInt8.ofNat (bytes.length - 1) :: bytes
  | .again length distance =>
    let high := (distance - 1) / 256
    let low := UInt8.ofNat (distance - 1)
    if length < 9 then [UInt8.ofNat ((length - 2) * 32 + high), low]
    else [UInt8.ofNat (7 * 32 + high), UInt8.ofNat (length - 9), low]

end Step

/-- What a list of instructions writes. -/
def written (out : List UInt8) (steps : List Step) : List UInt8 := steps.foldl Step.write out

/-- Whether each instruction is proper where it stands. -/
def Proper : List UInt8 → List Step → Prop
  | _, [] => True
  | out, step :: steps => step.Proper out ∧ Proper (step.write out) steps

instance decidableProper : (out : List UInt8) → (steps : List Step) → Decidable (Proper out steps)
  | _, [] => isTrue True.intro
  | out, step :: steps =>
    have := decidableProper (step.write out) steps
    inferInstanceAs (Decidable (step.Proper out ∧ Proper (step.write out) steps))

/-- The bytes a list of instructions is stored in. -/
def layout (steps : List Step) : List UInt8 := steps.flatMap Step.layout

/-- The next byte of a stretch is the one at that distance before it, whether that was
there before or is part of the stretch. -/
theorem stretch_succ {out : List UInt8} {distance : Nat} (positive : 1 ≤ distance)
    (within : distance ≤ out.length) (length : Nat) :
    ∃ byte, (out ++ stretch out distance length)[out.length - distance + length]? = some byte ∧
      stretch out distance (length + 1) = stretch out distance length ++ [byte] := by
  refine ⟨out.getD (out.length - distance + length % distance) 0, ?_, ?_⟩
  · by_cases old : length < distance
    · rw [List.getElem?_append_left (by omega), Nat.mod_eq_of_lt old,
        List.getElem?_eq_getElem (by omega), List.getD_eq_getElem _ _ (by omega)]
    · have place : out.length - distance + length - out.length = length - distance := by
        omega
      have round : (length - distance) % distance = length % distance := by
        conv_rhs => rw [← Nat.sub_add_cancel (Nat.le_of_not_lt old), Nat.add_mod_right]
      rw [List.getElem?_append_right (by omega), place, stretch, List.getElem?_map,
        List.getElem?_range (by omega), Option.map_some, round]
  · simp [stretch, List.range_succ]

end Lzf
