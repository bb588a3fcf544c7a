import RedisServer.Commands.Weaving
import RedisServer.Lib.FloatCast
import RedisServer.Lib.Grid

/-!
# Places in exact arithmetic

How a place is scored and read back, with rational numbers where the server has
doubles: the coordinates of a place, the share of its range each lies along, and the
score itself.  The squares, and the weaving of their numbers, are of 32 and 64 bits as
they are there.
-/

namespace RedisServer.Geo.Exact

/-- How far east and west a location may lie. -/
def longitudes : Grid.Range ℚ := ⟨-180, 180, by norm_num⟩

/-- How far north and south. -/
def latitudes : Grid.Range ℚ := ⟨-85.05112878, 85.05112878, by norm_num⟩

/-- Where a location is. -/
structure Point where
  longitude : ℚ
  latitude : ℚ

/-- A cast drops what comes after the point, and stops at the ends of the word. -/
def asU32 (number : ℚ) : UInt32 := .ofNatClamp ⌊number⌋₊

def asU64 (number : ℚ) : UInt64 := .ofNatClamp ⌊number⌋₊

/-- How many squares along its range a coordinate falls. -/
def squaresAlong (coordinate : ℚ) (range : Grid.Range ℚ) : UInt32 :=
  let along := (coordinate - range.start) / (range.stop - range.start)
  asU32 (along * ((1 : UInt32) <<< bits).toNat)

/-- The single number a place is kept under. -/
def score (point : Point) : ℚ :=
  let north := squaresAlong point.latitude latitudes
  let east := squaresAlong point.longitude longitudes
  (spread north ||| (spread east <<< 1)).toNat

/-- The middle of the given square along a range; there is none when the number
of the next square does not fit 32 bits. -/
def middleOf (square : UInt32) (range : Grid.Range ℚ) : Option ℚ :=
  if square.toNat + 1 < 2 ^ 32 then
    let span := range.stop - range.start
    let squares : ℚ := ((1 : UInt32) <<< bits).toNat
    let low := range.start + span * (square.toNat / squares)
    let high := range.start + span * ((square + 1).toNat / squares)
    some ((low + high) / 2)
  else none

/-- Unpicks a score into the middle of the square it numbers. -/
def decode (score : ℚ) : Option Point :=
  let score := asU64 score
  let north := gather score
  let east := gather (score >>> 1)
  match middleOf east longitudes, middleOf north latitudes with
  | some longitude, some latitude => some ⟨longitude, latitude⟩
  | _, _ => none

/-- The places a client may put down: both ends of either range are admitted. -/
def Point.Admitted (point : Point) : Prop :=
  (longitudes.start ≤ point.longitude ∧ point.longitude ≤ longitudes.stop) ∧
    latitudes.start ≤ point.latitude ∧ point.latitude ≤ latitudes.stop

/-! ## Squares -/

/-- How many squares there are either way. -/
abbrev squares : ℕ := 2 ^ 26

theorem toNat_clamp32 {number : ℕ} (small : number < 2 ^ 32) :
    (UInt32.ofNatClamp number).toNat = number := by
  rw [UInt32.ofNatClamp_eq_ofNat _ small, UInt32.toNat_ofNat_of_lt' small]

section Squares

variable {range : Grid.Range ℚ} {coordinate : ℚ}

theorem cell_le (within : coordinate ≤ range.stop) : range.cell squares coordinate ≤ 2 ^ 26 :=
  (range.cell_mono squares within).trans (range.cell_stop (by decide)).le

/-- A coordinate within its range falls in the square of the grid it lies in. -/
theorem toNat_squaresAlong (within : coordinate ≤ range.stop) :
    (squaresAlong coordinate range).toNat = range.cell squares coordinate := by
  have few := cell_le within
  change (UInt32.ofNatClamp (range.cell squares coordinate)).toNat = _
  exact toNat_clamp32 (by omega)

theorem middleOf_eq {square : UInt32} (small : square.toNat + 1 < 2 ^ 32) :
    middleOf square range = some (range.middle squares square.toNat) := by
  have next : (square + 1).toNat = square.toNat + 1 := by
    rw [UInt32.toNat_add]
    exact Nat.mod_eq_of_lt small
  rw [middleOf, if_pos small, next]
  rfl

/-- The middle of the square a coordinate falls in. -/
theorem middleOf_squaresAlong (within : coordinate ≤ range.stop) :
    middleOf (squaresAlong coordinate range) range =
      some (range.middle squares (range.cell squares coordinate)) := by
  have few := cell_le within
  have square := toNat_squaresAlong within
  rw [middleOf_eq (by omega), square]

/-- A coordinate below the upper end of its range falls in one of the squares. -/
theorem squaresAlong_lt (least : range.start ≤ coordinate) (below : coordinate < range.stop) :
    (squaresAlong coordinate range).toNat < 2 ^ 26 := by
  rw [toNat_squaresAlong below.le]
  exact (range.cell_lt_iff (by decide) least).mpr below

/-- The middle of the square a coordinate falls in falls in it too. -/
theorem squaresAlong_middle (least : range.start ≤ coordinate) (below : coordinate < range.stop) :
    squaresAlong (range.middle squares (range.cell squares coordinate)) range =
      squaresAlong coordinate range := by
  have inRange : range.middle squares (range.cell squares coordinate) ≤ range.stop :=
    (range.middle_le_stop_iff _ (by decide)).mpr ((range.cell_lt_iff (by decide) least).mpr below)
  apply UInt32.toNat_inj.mp
  rw [toNat_squaresAlong inRange, toNat_squaresAlong below.le, range.cell_middle (by decide)]

end Squares

theorem asU64_toNat (woven : UInt64) : asU64 woven.toNat = woven := by
  rw [asU64, Nat.floor_natCast, UInt64.ofNatClamp_eq_ofNat _ woven.toNat_lt, UInt64.ofNat_toNat]

/-- What is read back of a score is the middle of either square it was woven of. -/
theorem decode_score {point : Point} (admitted : point.Admitted) :
    decode (score point) = some
      ⟨longitudes.middle squares (longitudes.cell squares point.longitude),
        latitudes.middle squares (latitudes.cell squares point.latitude)⟩ := by
  have woven : asU64 (score point) = weave (squaresAlong point.latitude latitudes)
      (squaresAlong point.longitude longitudes) := asU64_toNat _
  simp only [decode, woven, gather_weave, gather_weave_shiftRight,
    middleOf_squaresAlong admitted.1.2, middleOf_squaresAlong admitted.2.2]

/-! ## Codes -/

/-- The number the squares of a place are woven into. -/
def code (point : Point) : UInt64 :=
  weave (squaresAlong point.latitude latitudes) (squaresAlong point.longitude longitudes)

theorem score_eq (point : Point) : score point = (code point).toNat := rfl

/-- Two squares of 26 bits are woven into 52. -/
theorem weave_lt {north east : UInt32} (smallNorth : north.toNat < 2 ^ 26)
    (smallEast : east.toNat < 2 ^ 26) : (weave north east).toNat < 2 ^ 52 := by
  refine Nat.lt_pow_two_of_testBit _ fun place high => ?_
  change (weave north east).toBitVec.getLsbD place = false
  obtain ⟨half, rfl | rfl⟩ := Nat.even_or_odd' place
  · rw [getLsbD_weave_even]
    exact Nat.testBit_lt_two_pow (smallNorth.trans_le (Nat.pow_le_pow_right (by decide) (by omega)))
  · rw [getLsbD_weave_odd]
    exact Nat.testBit_lt_two_pow (smallEast.trans_le (Nat.pow_le_pow_right (by decide) (by omega)))

theorem squaresAlong_mono {range : Grid.Range ℚ} {lower upper : ℚ} (below : lower ≤ upper)
    (within : upper ≤ range.stop) : squaresAlong lower range ≤ squaresAlong upper range := by
  rw [UInt32.le_iff_toNat_le, toNat_squaresAlong (below.trans within), toNat_squaresAlong within]
  exact range.cell_mono squares below

theorem weave_mono_north {smaller greater : UInt32} (east : UInt32) (below : smaller ≤ greater) :
    weave smaller east ≤ weave greater east := by
  rcases UInt32.lt_or_eq_of_le below with less | rfl
  · exact UInt64.le_of_lt (weave_lt_of_north_lt east less)
  · exact UInt64.le_refl _

theorem weave_mono_east {smaller greater : UInt32} (north : UInt32) (below : smaller ≤ greater) :
    weave north smaller ≤ weave north greater := by
  rcases UInt32.lt_or_eq_of_le below with less | rfl
  · exact UInt64.le_of_lt (weave_lt_of_east_lt north less)
  · exact UInt64.le_refl _

theorem half_longitude :
    (longitudes.stop - longitudes.start) / (squares : ℕ) / 2 = 360 / 2 ^ 26 / 2 := by
  norm_num [longitudes]

theorem half_latitude :
    (latitudes.stop - latitudes.start) / (squares : ℕ) / 2 = 2 * 85.05112878 / 2 ^ 26 / 2 := by
  norm_num [latitudes]

/-- A place of the half-open ranges: one that lies on neither upper end. -/
structure Point.Inside (point : Point) : Prop where
  west : -180 ≤ point.longitude
  east : point.longitude < 180
  south : -85.05112878 ≤ point.latitude
  north : point.latitude < 85.05112878

theorem Point.Inside.admitted {point : Point} (inside : point.Inside) : point.Admitted :=
  ⟨⟨inside.west, inside.east.le⟩, inside.south, inside.north.le⟩

/-- Places survive their score to within a square: the numbers of the squares are of 26
bits and the score of 52, which a double holds; what is read back lies in the same
square, no further off than half of one either way, and scores the same; and the score
does not fall as either coordinate grows. -/
theorem places_survive (point : Point) (inside : point.Inside) :
    (squaresAlong point.longitude longitudes).toNat < 2 ^ 26 ∧
    (squaresAlong point.latitude latitudes).toNat < 2 ^ 26 ∧
    score point < 2 ^ 52 ∧ (code point).toFloat.toUInt64 = code point ∧
    (∃ place, decode (score point) = some place ∧
      squaresAlong place.longitude longitudes = squaresAlong point.longitude longitudes ∧
      squaresAlong place.latitude latitudes = squaresAlong point.latitude latitudes ∧
      |point.longitude - place.longitude| ≤ 360 / 2 ^ 26 / 2 ∧
      |point.latitude - place.latitude| ≤ 2 * 85.05112878 / 2 ^ 26 / 2 ∧
      score place = score point) ∧
    (∀ longitude, point.longitude ≤ longitude → longitude < 180 →
      score point ≤ score { point with longitude }) ∧
    ∀ latitude, point.latitude ≤ latitude → latitude < 85.05112878 →
      score point ≤ score { point with latitude } := by
  have smallEast : (squaresAlong point.longitude longitudes).toNat < 2 ^ 26 :=
    squaresAlong_lt inside.west inside.east
  have smallNorth : (squaresAlong point.latitude latitudes).toNat < 2 ^ 26 :=
    squaresAlong_lt inside.south inside.north
  have small : (code point).toNat < 2 ^ 52 := weave_lt smallNorth smallEast
  have sameEast : squaresAlong
      (longitudes.middle squares (longitudes.cell squares point.longitude)) longitudes = _ :=
    squaresAlong_middle inside.west inside.east
  have sameNorth : squaresAlong
      (latitudes.middle squares (latitudes.cell squares point.latitude)) latitudes = _ :=
    squaresAlong_middle inside.south inside.north
  refine ⟨smallEast, smallNorth, ?_, FloatCast.toUInt64_toFloat (by omega),
    ⟨_, decode_score inside.admitted, sameEast, sameNorth, ?_, ?_, ?_⟩, ?_, ?_⟩
  · rw [score_eq]
    exact_mod_cast small
  · rw [← half_longitude]
    exact longitudes.abs_sub_middle_le (by decide) inside.west
  · rw [← half_latitude]
    exact latitudes.abs_sub_middle_le (by decide) inside.south
  · simp only [score, sameEast, sameNorth]
  · intro longitude further below
    rw [score_eq, score_eq]
    exact_mod_cast UInt64.le_iff_toNat_le.mp
      (weave_mono_east _ (squaresAlong_mono further below.le))
  · intro latitude further below
    rw [score_eq, score_eq]
    exact_mod_cast UInt64.le_iff_toNat_le.mp
      (weave_mono_north _ (squaresAlong_mono further below.le))

/-- Where the prime meridian crosses the equator. -/
theorem places_survive_origin : Point.Inside ⟨0, 0⟩ ∧ score ⟨0, 0⟩ < 2 ^ 52 := by
  have inside : Point.Inside ⟨0, 0⟩ := ⟨by norm_num, by norm_num, by norm_num, by norm_num⟩
  exact ⟨inside, (places_survive ⟨0, 0⟩ inside).2.2.1⟩

/-! ## The upper ends -/

section Ends

variable {range : Grid.Range ℚ} {coordinate : ℚ}

/-- The middle given back for a coordinate lies in the range unless the coordinate is its
upper end. -/
theorem middle_cell_le_iff (least : range.start ≤ coordinate) :
    range.middle squares (range.cell squares coordinate) ≤ range.stop ↔
      coordinate < range.stop := by
  rw [range.middle_le_stop_iff _ (by decide), range.cell_lt_iff (by decide) least]

/-- The middle given back for the upper end lies half a square past it. -/
theorem middle_stop : range.middle squares (range.cell squares range.stop) =
    range.stop + (range.stop - range.start) / (squares : ℕ) / 2 := by
  rw [range.cell_stop (by decide), Grid.Range.middle, range.edge_succ,
    range.edge_count (by decide)]
  ring

end Ends

/-- The middle given back for an admitted place is admitted along either range just when
the place lies below its upper end.  For a coordinate on the upper end, the middle lies
half a square past it. -/
theorem position_admitted_iff (point : Point) (admitted : point.Admitted) :
    ∃ place, decode (score point) = some place ∧
      ((-180 ≤ place.longitude ∧ place.longitude ≤ 180) ↔ point.longitude < 180) ∧
      ((-85.05112878 ≤ place.latitude ∧ place.latitude ≤ 85.05112878) ↔
        point.latitude < 85.05112878) ∧
      (point.longitude = 180 → place.longitude = 180 + 360 / 2 ^ 26 / 2) ∧
      (point.latitude = 85.05112878 →
        place.latitude = 85.05112878 + 2 * 85.05112878 / 2 ^ 26 / 2) := by
  refine ⟨_, decode_score admitted, ?_, ?_, fun east => ?_, fun north => ?_⟩
  · rw [← show longitudes.stop = 180 from rfl, ← middle_cell_le_iff admitted.1.1]
    exact and_iff_right (longitudes.start_le_middle _ (by decide))
  · rw [← show latitudes.stop = 85.05112878 from rfl, ← middle_cell_le_iff admitted.2.1]
    exact and_iff_right (latitudes.start_le_middle _ (by decide))
  · rw [← half_longitude, east]
    exact middle_stop
  · rw [← half_latitude, north]
    exact middle_stop

/-- A place on neither upper end is given back within the ranges. -/
theorem position_admitted_origin : ∃ place, decode (score ⟨0, 0⟩) = some place ∧
    -180 ≤ place.longitude ∧ place.longitude ≤ 180 := by
  have admitted : Point.Admitted ⟨0, 0⟩ := by
    simp only [Point.Admitted, longitudes, latitudes]
    norm_num
  obtain ⟨place, decoded, within, _⟩ := position_admitted_iff ⟨0, 0⟩ admitted
  exact ⟨place, decoded, within.mpr (by norm_num)⟩

/-- A place on the eastern end is admitted, and is given back past it. -/
theorem eastern_end_given_back_outside : Point.Admitted ⟨180, 0⟩ ∧
    ∃ place, decode (score ⟨180, 0⟩) = some place ∧ ¬ place.Admitted := by
  have admitted : Point.Admitted ⟨180, 0⟩ := by
    simp only [Point.Admitted, longitudes, latitudes]
    norm_num
  refine ⟨admitted, _, decode_score admitted, fun within => ?_⟩
  have below := (middle_cell_le_iff admitted.1.1).mp within.1.2
  exact absurd below (lt_irrefl _)

end RedisServer.Geo.Exact
