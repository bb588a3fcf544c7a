import RedisServer.Dataset

/-!
# What can be let out

Whatever is let out was squeezed: a reading that goes through has followed proper
instructions laid out one after another, and any other bytes are refused without an index
out of range.  Before anything is read, a length no vector can have ends in a panic, and
one the allocator does not serve takes the process down.
-/

namespace RedisServer.Rdb

/-- What following the instruction at the front of some bytes may come to: it is laid out
there and carried out, or it is refused. -/
inductive Followed (out stored : Bytes) : Except Failure (Bytes × Bytes) → Prop where
  | laidOut (step : Lzf.Step) (rest : Bytes) (proper : step.Proper out)
      (isLayout : stored = step.layout ++ rest) : Followed out stored (.ok (step.write out, rest))
  | refused (refusal : Refusal) : Followed out stored (.error (.refused refusal))

/-- A stretch is written again if it is laid out behind the bytes read so far. -/
theorem repeated_followed (control : UInt8) (length : Nat) (out front rest : Bytes)
    (long : 1 ≤ length) (short : length ≤ 262)
    (isLayout : ∀ low remaining, rest = low :: remaining →
      front ++ rest = (Lzf.Step.again (length + 2)
        (control.toNat % 32 * 256 + low.toNat + 1)).layout ++ remaining) :
    Followed out (front ++ rest) (repeated control length out rest) := by
  cases rest with
  | nil => exact .refused _
  | cons low remaining =>
    have lowFits := low.toNat_lt
    simp only [repeated, toNat_and_lowFive]
    split
    · exact .refused _
    · rename_i within
      have copied := copy_stretch (Nat.succ_le_succ (Nat.zero_le _))
        (Nat.le_of_not_lt within) (length + 2) 0
      simp only [Nat.add_zero, Nat.zero_add, Lzf.stretch, List.range_zero, List.map_nil,
        List.append_nil] at copied
      rw [copied]
      exact .laidOut (.again (length + 2) (control.toNat % 32 * 256 + low.toNat + 1)) remaining
        ⟨by omega, ⟨by omega, by omega⟩, by omega⟩ (isLayout low remaining rfl)

theorem follow_followed (control : UInt8) (rest out : Bytes) :
    Followed out (control :: rest) (follow control rest out) := by
  have fits := control.toNat_lt
  have spelled {number : Nat} (same : number = control.toNat) : UInt8.ofNat number = control := by
    rw [same, UInt8.ofNat_toNat]
  have spelledLow (low : UInt8) (high : Nat) : UInt8.ofNat (high * 256 + low.toNat) = low := by
    apply UInt8.toNat_inj.mp
    have lowFits := low.toNat_lt
    rw [UInt8.toNat_ofNat']
    omega
  unfold follow
  split
  · rename_i asTheyAre
    have few : control.toNat < 32 := by simpa [UInt8.lt_iff_toNat_lt] using asTheyAre
    dsimp only
    split
    · exact .refused _
    · rename_i enough
      have isRun : (rest.take (control.toNat + 1)).length = control.toNat + 1 :=
        List.length_take_of_le (Nat.le_of_not_lt enough)
      refine .laidOut (.run (rest.take (control.toNat + 1))) (rest.drop (control.toNat + 1))
        (by simp only [Lzf.Step.Proper, isRun]; omega) ?_
      simp only [Lzf.Step.layout, isRun, Nat.add_sub_cancel, spelled rfl, List.cons_append,
        List.take_append_drop]
  · rename_i repeats
    have many : 32 ≤ control.toNat := by simpa [UInt8.lt_iff_toNat_lt] using repeats
    dsimp only
    rw [toNat_shiftRight_five]
    split
    · rename_i spills
      cases rest with
      | nil => exact .refused _
      | cons more rest =>
        have moreFits := more.toNat_lt
        refine repeated_followed control (control.toNat / 32 + more.toNat) out [control, more] rest
          (by omega) (by omega) ?_
        rintro low remaining rfl
        have isMore : UInt8.ofNat (control.toNat / 32 + more.toNat + 2 - 9) = more := by
          rw [spills, (by omega : 7 + more.toNat + 2 - 9 = more.toNat), UInt8.ofNat_toNat]
        have isControl : UInt8.ofNat (7 * 32 + control.toNat % 32) = control := spelled (by omega)
        have high : (control.toNat % 32 * 256 + low.toNat) / 256 = control.toNat % 32 := by
          have lowFits := low.toNat_lt
          omega
        simp only [Lzf.Step.layout, Nat.add_sub_cancel, high, spelledLow]
        rw [if_neg (by omega), isMore, isControl]
        rfl
    · rename_i fitsIn
      refine repeated_followed control (control.toNat / 32) out [control] rest (by omega)
        (by omega) ?_
      rintro low remaining rfl
      have high : (control.toNat % 32 * 256 + low.toNat) / 256 = control.toNat % 32 := by
        have lowFits := low.toNat_lt
        omega
      have isControl : UInt8.ofNat (control.toNat / 32 * 32 + control.toNat % 32) = control :=
        spelled (by omega)
      simp only [Lzf.Step.layout, Nat.add_sub_cancel, high, spelledLow]
      rw [if_pos (by omega), isControl]
      rfl

/-- What following all of the instructions may come to. -/
theorem unsqueezeAll_cases (squeezed out : Bytes) (turns : Nat) (enough : squeezed.length ≤ turns) :
    (∃ steps, Lzf.Proper out steps ∧ squeezed = Lzf.layout steps ∧
        unsqueezeAll turns squeezed out = .ok (Lzf.written out steps)) ∨
      ∃ refusal, unsqueezeAll turns squeezed out = .error (.refused refusal) := by
  induction turns generalizing squeezed out with
  | zero =>
    obtain rfl := List.length_eq_zero_iff.mp (Nat.le_zero.mp enough)
    exact .inl ⟨[], True.intro, rfl, rfl⟩
  | succ turns ih =>
    cases squeezed with
    | nil => exact .inl ⟨[], True.intro, rfl, rfl⟩
    | cons control rest =>
      rw [unsqueezeAll]
      have followed := follow_followed control rest out
      generalize follow control rest out = outcome at followed
      cases followed with
      | refused refusal => exact .inr ⟨refusal, rfl⟩
      | laidOut step remaining proper isLayout =>
        have shorter := congrArg List.length isLayout
        rw [List.length_append, List.length_cons] at shorter
        rw [List.length_cons] at enough
        have longer := length_layout_pos step
        rcases ih remaining (step.write out) (by omega) with
          ⟨steps, properSteps, rfl, wrote⟩ | refused
        · refine .inl ⟨step :: steps, ⟨proper, properSteps⟩, ?_, wrote⟩
          rw [isLayout, Lzf.layout, Lzf.layout, List.flatMap_cons]
        · exact .inr refused

/-- Letting out is exact: instructions laid out are let out to what they write, whatever is
let out was laid out that way, and everything else is refused. -/
structure LetsOutExactly (allocator : Allocator) (squeezed : Bytes) (unpacked : Nat) : Prop where
  laidOut : ∀ steps, Lzf.Proper [] steps → squeezed = Lzf.layout steps →
    (Lzf.written [] steps).length = unpacked →
    unsqueezeWith allocator squeezed unpacked = .ok (Lzf.written [] steps)
  letOut : ∀ out, unsqueezeWith allocator squeezed unpacked = .ok out → out.length = unpacked ∧
    ∃ steps, Lzf.Proper [] steps ∧ squeezed = Lzf.layout steps ∧ Lzf.written [] steps = out
  refused : (¬ ∃ steps, Lzf.Proper [] steps ∧ squeezed = Lzf.layout steps ∧
      (Lzf.written [] steps).length = unpacked) →
    ∃ refusal, unsqueezeWith allocator squeezed unpacked = .error (.refused refusal)

/-- Without the room it asks for, letting out ends in a panic or takes the process down. -/
theorem unsqueezeWith_unserved {allocator : Allocator} (squeezed : Bytes) {unpacked : Nat}
    (unserved : allocator.serves unpacked = false) :
    unsqueezeWith allocator squeezed unpacked =
      .error (if maxCapacity < unpacked then .panicked else .aborted) := by
  rw [unsqueezeWith, if_pos (show (!allocator.serves unpacked) = true by simp [unserved])]
  split <;> rfl

/-- Letting out is exact for every length there is room for, and for no other. -/
theorem letsOutExactly_iff (allocator : Allocator) (squeezed : Bytes) (unpacked : Nat) :
    LetsOutExactly allocator squeezed unpacked ↔ allocator.serves unpacked = true := by
  constructor
  · intro exactly
    by_contra unserved
    have fails := unsqueezeWith_unserved squeezed (Bool.eq_false_iff.mpr unserved)
    by_cases laidOut : ∃ steps, Lzf.Proper [] steps ∧ squeezed = Lzf.layout steps ∧
        (Lzf.written [] steps).length = unpacked
    · obtain ⟨steps, proper, isLayout, isLength⟩ := laidOut
      cases fails.symm.trans (exactly.laidOut steps proper isLayout isLength)
    · obtain ⟨refusal, isRefused⟩ := exactly.refused laidOut
      have same := Except.error.inj (fails.symm.trans isRefused)
      split at same <;> cases same
  · intro served
    have read := unsqueezeWith_served squeezed served
    refine ⟨?_, fun out isOut => ?_, fun nothing => ?_⟩
    · rintro steps proper rfl rfl
      rw [read, letOut_layout proper]
    · rcases unsqueezeAll_cases squeezed [] _ le_rfl with
        ⟨steps, proper, isLayout, wrote⟩ | ⟨refusal, refused⟩
      · rw [read, Rdb.letOut, wrote] at isOut
        dsimp only at isOut
        split at isOut
        · rename_i isLength
          cases isOut
          exact ⟨isLength, steps, proper, isLayout, rfl⟩
        · cases isOut
      · rw [read, Rdb.letOut, refused] at isOut
        cases isOut
    · rcases unsqueezeAll_cases squeezed [] _ le_rfl with
        ⟨steps, proper, isLayout, wrote⟩ | ⟨refusal, refused⟩
      · have otherLength : (Lzf.written [] steps).length ≠ unpacked :=
          fun isLength => nothing ⟨steps, proper, isLayout, isLength⟩
        rw [read, Rdb.letOut, wrote]
        dsimp only
        rw [if_neg otherLength]
        exact ⟨_, rfl⟩
      · rw [read, Rdb.letOut, refused]
        exact ⟨_, rfl⟩

/-- Nothing at all, said to let out to more than any vector holds, is not refused whatever
the machine; and said to let out to more than the machine has room for, it is not either. -/
theorem unsqueeze_panics :
    (∀ allocator, unsqueezeWith allocator [] (2 ^ 63) = .error .panicked) ∧
      unsqueezeWith (.upTo (2 ^ 40)) [] (2 ^ 62) = .error .aborted :=
  ⟨fun _ => rfl, rfl⟩

end RedisServer.Rdb
