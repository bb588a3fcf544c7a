import RedisServer.Commands.Panicking
import RedisServer.Commands.Weaving
import RedisServer.Lib.FloatCast

/-!
# Asking after members as places

The commands on places take any member of any sorted set for a place.  The middle of
its square is found with one addition of 32 bits, which overflows when the square is
the last that 32 bits can number.  Only scores too great for 64 bits, which cast to the
greatest there is, number such a square.
-/

namespace RedisServer.Geo

/-! ## Scores -/

theorem middleOf_isSome (square : UInt32) (range : Range) :
    (middleOf square range).isSome ↔ square.toNat + 1 < 2 ^ 32 := by
  rw [middleOf]
  split <;> simp_all

theorem decode_isSome (score : Float) :
    (decode score).isSome ↔ (gather score.toUInt64).toNat + 1 < 2 ^ 32 ∧
      (gather (score.toUInt64 >>> 1)).toNat + 1 < 2 ^ 32 := by
  rw [← middleOf_isSome _ latitudes, ← middleOf_isSome _ longitudes, decode]
  cases middleOf (gather (score.toUInt64 >>> 1)) longitudes <;>
    cases middleOf (gather score.toUInt64) latitudes <;> simp

/-- A number of 32 bits that lacks one of them is not the last there is. -/
theorem succ_lt_of_bit {square : UInt32} {place : Nat} (inWord : place < 32)
    (lacks : square.toBitVec.getLsbD place = false) : square.toNat + 1 < 2 ^ 32 := by
  by_contra last
  have full : square.toBitVec = BitVec.allOnes 32 := by
    apply BitVec.eq_of_toNat_eq
    have small := square.toNat_lt
    have same : square.toBitVec.toNat = square.toNat := rfl
    rw [same, BitVec.toNat_allOnes]
    omega
  rw [full, BitVec.getLsbD_allOnes] at lacks
  simp [inWord] at lacks

/-- Of a number with at most 53 significant bits, two neighbouring bits are not set: the
lowest two or the highest. -/
theorem lacks_neighbours {woven : UInt64} {mantissa shift : Nat} (narrow : mantissa < 2 ^ 53)
    (woven_eq : woven.toNat = mantissa * 2 ^ shift) :
    ∃ place, place < 32 ∧ woven.toBitVec.getLsbD (2 * place) = false ∧
      woven.toBitVec.getLsbD (2 * place + 1) = false := by
  change ∃ place, _ ∧ woven.toNat.testBit (2 * place) = false ∧
    woven.toNat.testBit (2 * place + 1) = false
  by_cases far : 2 ≤ shift
  · refine ⟨0, by decide, ?_⟩
    rw [woven_eq, Nat.testBit_mul_two_pow, Nat.testBit_mul_two_pow]
    simp [show ¬ shift ≤ 0 by omega, show ¬ shift ≤ 1 by omega]
  · have small : woven.toNat < 2 ^ 62 := by
      have := Nat.mul_le_mul narrow.le (Nat.pow_le_pow_right (by decide : 0 < 2)
        (show shift ≤ 1 by omega))
      omega
    exact ⟨31, by decide, Nat.testBit_lt_two_pow (by omega), Nat.testBit_lt_two_pow (by omega)⟩

/-- A member can be read as a place just when its score lies below what 64 bits hold. -/
theorem decode_isSome_iff {score : Float} (isNumber : score.isNaN = false) :
    (decode score).isSome ↔ score < 18446744073709551616 := by
  rw [decode_isSome]
  constructor
  · intro completes
    by_contra great
    have full : score.toUInt64 = weave 0xFFFFFFFF 0xFFFFFFFF := by
      apply UInt64.toNat_inj.mp
      rw [FloatCast.toUInt64_of_not_lt isNumber great]
      decide +kernel
    rw [full, gather_weave] at completes
    exact absurd completes.1 (by decide)
  · intro small
    obtain ⟨mantissa, shift, narrow, woven_eq⟩ := FloatCast.toUInt64_of_lt small
    obtain ⟨place, inWord, even, odd⟩ := lacks_neighbours narrow woven_eq
    refine ⟨succ_lt_of_bit inWord ?_, succ_lt_of_bit inWord ?_⟩
    · rw [getLsbD_gather _ inWord, even]
    · rw [getLsbD_gather _ inWord, getLsbD_shiftRight_one, odd]

/-! ## Commands -/

/-- A sorted set stands at a key, never to lapse, as every set `ZADD` makes does. -/
def Stands (set : SortedSet Float) (key : Bytes) (world : World) : Prop :=
  ∃ version, world.store.entries[key]? = some ⟨.sortedSet set, none, version⟩

section Standing

variable {set : SortedSet Float} {key : Bytes} {world : World}

/-- Asking something of the set leaves it standing. -/
theorem Stands.asked (stands : Stands set key world) {β : Type} (now : Instant)
    (question : SortedSet Float → β) :
    (world.store.asked now key question).2 = .ok (question set) ∧
      Stands set key { world with store := (world.store.asked now key question).1 } := by
  obtain ⟨version, found⟩ := stands
  have live : world.store.live now key = some ⟨.sortedSet set, none, version⟩ := by
    rw [State.live, found]
    rfl
  refine ⟨?_, version, ?_⟩
  · simp [State.asked, live]
  · simp [State.asked, live]

theorem Stands.zscore (stands : Stands set key world) (env : Env) (member : Bytes) :
    ∃ after, world.perform env (.store (.on key (.zscore member))) =
      .done after (.ok (set.score member)) ∧ Stands set key after := by
  obtain ⟨answer, still⟩ := stands.asked env.clock.now fun set => set.score member
  refine ⟨_, ?_, still⟩
  rw [← answer]
  rfl

theorem Stands.zmembers (stands : Stands set key world) (env : Env) :
    ∃ after, world.perform env (.store (.on key .zmembers)) =
      .done after (.ok (set.map fun member => (member.name, member.score))) ∧
        Stands set key after := by
  obtain ⟨answer, still⟩ :=
    stands.asked env.clock.now fun set => set.map fun member => (member.name, member.score)
  refine ⟨_, ?_, still⟩
  rw [← answer]
  rfl

variable [Platform] {supply : Nat → Env} {count : Nat}

/-- `GEOPOS` panics at the first place asked after that has no middle. -/
theorem Stands.panics_positions (stands : Stands set key world) (found : List Value)
    (places : List Bytes) :
    Panics (positions key found places) supply count world ↔
      ∃ place ∈ places, ∃ score, set.score place = some score ∧ decode score = none := by
  induction places generalizing found count world with
  | nil => simpa [positions] using not_panics_ret _
  | cons place places ih =>
    obtain ⟨after, performed, still⟩ := stands.zscore (supply count) place
    rw [positions, panics_call performed]
    cases scored : set.score place with
    | none => simpa [scored] using ih still _
    | some score =>
      cases decoded : decode score with
      | none =>
        simpa [position, decoded, scored] using panics_overflow _
      | some point => simpa [position, decoded, scored] using ih still _

/-- `GEODIST` panics when both places are there and one of them has no middle. -/
theorem Stands.panics_distance (stands : Stands set key world) (source target : Bytes)
    (unit : Option Bytes) :
    Panics (distance key source target unit) supply count world ↔
      (unit.elim (.ok metres) measure).isOk ∧
        ∃ first second, set.score source = some first ∧ set.score target = some second ∧
          (decode first = none ∨ decode second = none) := by
  rw [distance]
  cases measured : unit.elim (.ok metres) measure with
  | error error => simpa [Except.isOk, Except.toBool] using not_panics_ret _
  | ok metres =>
    obtain ⟨after, performed, still⟩ := stands.zscore (supply count) source
    obtain ⟨last, performedToo, _⟩ := still.zscore (supply (count + 1)) target
    simp only
    rw [panics_call performed, panics_call performedToo]
    cases scored : set.score source with
    | none => simpa using not_panics_ret _
    | some first =>
      cases scoredToo : set.score target with
      | none => simpa using not_panics_ret _
      | some second =>
        cases decoded : decode first <;> cases decodedToo : decode second <;>
          simp [decoded, decodedToo, Except.isOk, Except.toBool, panics_overflow,
            not_panics_ret]

omit [Platform] in
theorem within_eq_none (search : Search) (places : List (Bytes × Float)) :
    within search places = none ↔ ∃ place ∈ places, decode place.2 = none := by
  induction places with
  | nil => simp [within]
  | cons place places ih =>
    rw [List.exists_mem_cons_iff, ← ih, within]
    cases decode place.2 <;> cases within search places <;> simp

/-- `GEOSEARCH` panics when any member of the set has no middle. -/
theorem Stands.panics_search (stands : Stands set key world) (terms : List Bytes) :
    Panics (search key terms) supply count world ↔
      (searchFor terms).isOk ∧ ∃ member ∈ set, decode member.score = none := by
  rw [search]
  cases read : searchFor terms with
  | error error => simpa [Except.isOk, Except.toBool] using not_panics_ret _
  | ok search =>
    obtain ⟨after, performed, _⟩ := stands.zmembers (supply count)
    simp only
    rw [panics_call performed]
    have fails := within_eq_none search (set.map fun member => (member.name, member.score))
    simp only [List.mem_map, exists_exists_and_eq_and] at fails
    rw [← fails]
    cases found : within search (set.map fun member => (member.name, member.score)) with
    | none => simpa [found, Except.isOk, Except.toBool] using panics_overflow _
    | some places => simpa [found] using not_panics_ret _

end Standing

/-- Every score of the set is a number, as every score `ZADD` admits is. -/
def Numbers (set : SortedSet Float) : Prop := ∀ member ∈ set, member.score.isNaN = false

theorem Numbers.of_score {set : SortedSet Float} (numbers : Numbers set) {name : Bytes}
    {score : Float} (scored : set.score name = some score) : score.isNaN = false := by
  obtain ⟨member, found, rfl⟩ := Option.map_eq_some_iff.mp scored
  exact numbers member (List.mem_of_find?_eq_some found)

theorem decode_ne_none_iff {score : Float} (isNumber : score.isNaN = false) :
    decode score ≠ none ↔ score < 18446744073709551616 := by
  rw [← decode_isSome_iff isNumber, Option.isSome_iff_ne_none]

/-- A member whose score lies below what 64 bits hold can be asked after as a place, and
no other can: `decode` finds its square, and the three commands that ask after the
places of a sorted set panic just when they come to a member with another score. -/
theorem places_asked_iff [Platform] :
    (∀ score : Float, score.isNaN = false →
      ((decode score).isSome ↔ score < 18446744073709551616)) ∧
    ∀ (set : SortedSet Float) (key : Bytes) (world : World) (supply : Nat → Env) (count : Nat),
      Stands set key world → Numbers set →
      (∀ places, ¬ Panics (positions key [] places) supply count world ↔
        ∀ place ∈ places, ∀ score, set.score place = some score →
          score < 18446744073709551616) ∧
      (∀ source target unit, (unit.elim (.ok metres) measure).isOk →
        (¬ Panics (distance key source target unit) supply count world ↔
          ∀ first second, set.score source = some first → set.score target = some second →
            first < 18446744073709551616 ∧ second < 18446744073709551616)) ∧
      (∀ terms, (searchFor terms).isOk →
        (¬ Panics (search key terms) supply count world ↔
          ∀ member ∈ set, member.score < 18446744073709551616)) := by
  refine ⟨fun score isNumber => decode_isSome_iff isNumber,
    fun set key world supply count stands numbers => ⟨fun places => ?_, ?_, ?_⟩⟩
  · rw [stands.panics_positions]
    push Not
    exact forall₂_congr fun place _ => forall₂_congr fun score scored =>
      decode_ne_none_iff (numbers.of_score scored)
  · intro source target unit measured
    rw [stands.panics_distance]
    simp only [measured, true_and]
    push Not
    refine forall₂_congr fun first second => forall₂_congr fun scored scoredToo => ?_
    rw [decode_ne_none_iff (numbers.of_score scored),
      decode_ne_none_iff (numbers.of_score scoredToo)]
  · intro terms read
    rw [stands.panics_search]
    simp only [read, true_and]
    push Not
    exact forall₂_congr fun member isMember => decode_ne_none_iff (numbers member isMember)

/-- A set of one member, asked after as a place. -/
theorem places_asked_one : let _ := Platform.ascii
    let entry : Entry := ⟨.sortedSet [⟨1, utf8 "here"⟩], none, 1⟩
    (decode 1).isSome ∧
      ¬ Panics (positions (utf8 "places") [] [utf8 "here"]) (fun _ => {}) 0
        { store := { entries := (∅ : Map Bytes Entry).insert (utf8 "places") entry } } := by
  let _ := Platform.ascii
  refine ⟨(places_asked_iff.1 1 (by decide +kernel)).mpr (by decide +kernel),
    ((places_asked_iff.2 [⟨1, utf8 "here"⟩] _ _ _ 0 ⟨1, ?_⟩ ?_).1 _).mpr ?_⟩
  · simp
  · intro member isMember
    cases List.mem_singleton.mp isMember
    decide +kernel
  · intro place isPlace score scored
    cases List.mem_singleton.mp isPlace
    cases scored
    decide +kernel

/-- A member may be given an infinite score, and asking where it is panics. -/
theorem infinite_place_panics : let _ := Platform.ascii
    Panics (SortedSets.add (utf8 "places") [utf8 "inf", utf8 "there"] >>= fun _ =>
      positions (utf8 "places") [] [utf8 "there"]) (fun _ => {}) 0 {} :=
  ⟨_, rfl⟩

end RedisServer.Geo
