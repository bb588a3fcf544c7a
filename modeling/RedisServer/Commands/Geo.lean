import RedisServer.Commands.SortedSets

/-!
# Commands on places on the earth

A place is a member of an ordinary sorted set.  The earth is cut into a grid of
`2 ^ 26` squares either way and a place is numbered by its square, the bits of the
two numbers of the square woven into one score.
-/

namespace RedisServer.Geo

/-- A range of coordinates, both ends included. -/
structure Range where
  start : Float
  stop : Float

namespace Range

def contains (range : Range) (coordinate : Float) : Bool :=
  range.start ≤ coordinate && coordinate ≤ range.stop

end Range

/-- How far east and west a location may lie. -/
def longitudes : Range := ⟨-180.0, 180.0⟩

/-- How far north and south: to the edge of the square the earth is laid out on. -/
def latitudes : Range := ⟨-85.05112878, 85.05112878⟩

/-- How finely the earth is cut up, in bits either way. -/
def bits : UInt32 := 26

/-- How wide the earth is taken to be, in metres. -/
def earthRadius : Float := 6372797.560856

/-- The unit a distance is given in unless another is asked for. -/
def metres : Float := 1.0

/-- Where a location is. -/
structure Point where
  longitude : Float
  latitude : Float

/-! ## Scores -/

/-- Spreads the bits of a number out, a gap left after each. -/
def spread (value : UInt32) : UInt64 :=
  [((16 : UInt64), (0x0000FFFF0000FFFF : UInt64)), (8, 0x00FF00FF00FF00FF),
    (4, 0x0F0F0F0F0F0F0F0F), (2, 0x3333333333333333), (1, 0x5555555555555555)].foldl
    (fun spread step => (spread ||| (spread <<< step.1)) &&& step.2) value.toUInt64

/-- Gathers up every other bit of a number, closing the gaps. -/
def gather (woven : UInt64) : UInt32 :=
  ([((1 : UInt64), (0x3333333333333333 : UInt64)), (2, 0x0F0F0F0F0F0F0F0F),
    (4, 0x00FF00FF00FF00FF), (8, 0x0000FFFF0000FFFF), (16, 0x00000000FFFFFFFF)].foldl
    (fun gathered step => (gathered ||| (gathered >>> step.1)) &&& step.2)
    (woven &&& 0x5555555555555555)).toUInt32

/-- How many squares along its range a coordinate falls. -/
def squaresAlong (coordinate : Float) (range : Range) : UInt32 :=
  let along := (coordinate - range.start) / (range.stop - range.start)
  (along * ((1 : UInt32) <<< bits).toFloat).toUInt32

/-- The single number a place is kept under: north-south in the even bits,
east-west in the odd ones. -/
def score (point : Point) : Float :=
  let north := squaresAlong point.latitude latitudes
  let east := squaresAlong point.longitude longitudes
  (spread north ||| (spread east <<< 1)).toFloat

/-- The middle of the given square along a range; there is none when the number
of the next square does not fit 32 bits. -/
def middleOf (square : UInt32) (range : Range) : Option Float :=
  if square.toNat + 1 < 2 ^ 32 then
    let span := range.stop - range.start
    let squares := ((1 : UInt32) <<< bits).toFloat
    let low := range.start + span * (square.toFloat / squares)
    let high := range.start + span * ((square + 1).toFloat / squares)
    some ((low + high) / 2.0)
  else none

/-- Unpicks a score into the middle of the square it numbers. -/
def decode (score : Float) : Option Point :=
  let score := score.toUInt64
  let north := gather score
  let east := gather (score >>> 1)
  match middleOf east longitudes, middleOf north latitudes with
  | some longitude, some latitude => some ⟨longitude, latitude⟩
  | _, _ => none

def toRadians (degrees : Float) : Float := degrees * (3.141592653589793 / 180.0)

/-- How far apart two places are, in metres, by the haversine formula. -/
def apart (source target : Point) : Float :=
  let east := (toRadians target.longitude - toRadians source.longitude) / 2.0
  let north := (toRadians target.latitude - toRadians source.latitude) / 2.0
  let haversine := north.sin * north.sin +
    (toRadians source.latitude).cos * (toRadians target.latitude).cos *
      (east.sin * east.sin)
  2.0 * earthRadius * haversine.sqrt.asin

/-! ## Reading places, units and searches -/

/-- Reads a number; `nan` lies in no range. -/
def coordinate (coordinate : Bytes) : Option Float :=
  ((text coordinate).bind parseF64).filter fun coordinate => !coordinate.isNaN

variable [Platform]

/-- What is said of a pair naming no place on the earth. -/
def outOfRange (longitude latitude : Float) : Value :=
  .error ("ERR invalid longitude,latitude pair " ++ Platform.showFixed 6 longitude ++ "," ++
    Platform.showFixed 6 latitude)

/-- Reads a place on the earth.  Both numbers are read before either is looked
over. -/
def point (longitude latitude : Bytes) : Except Value Point :=
  match coordinate longitude, coordinate latitude with
  | some longitude, some latitude =>
    if longitudes.contains longitude && latitudes.contains latitude then
      .ok ⟨longitude, latitude⟩
    else .error (outOfRange longitude latitude)
  | _, _ => .error notAFloat

def unsupportedUnit : Value :=
  .error "ERR unsupported unit provided. please use M, KM, FT, MI"

/-- How many metres a unit is worth. -/
def measure (unit : Bytes) : Except Value Float :=
  match (text unit).map Platform.toLowercase with
  | some "m" => .ok metres
  | some "km" => .ok 1000.0
  | some "mi" => .ok 1609.34
  | some "ft" => .ok 0.3048
  | _ => .error unsupportedUnit

/-- What a search is looking for: everywhere within so many metres. -/
structure Search where
  centre : Point
  radius : Float

/-- Reads the words of a search in the order they come, a later spot or distance
taking the place of an earlier one. -/
def searchTerms (centre : Option Point) (radius : Option Float) :
    List Bytes → Except Value Search
  | [] =>
    match centre, radius with
    | some centre, some radius => .ok ⟨centre, radius⟩
    | _, _ => .error syntaxError
  | [_] => .error syntaxError
  | [_, _] => .error syntaxError
  | term :: first :: second :: rest =>
    match (text term).map Platform.toUppercase with
    | some "FROMLONLAT" =>
      match point first second with
      | .ok centre => searchTerms (some centre) radius rest
      | .error error => .error error
    | some "BYRADIUS" =>
      match coordinate first with
      | none => .error notAFloat
      | some distance =>
        match measure second with
        | .ok unit => searchTerms centre (some (distance * unit)) rest
        | .error error => .error error
    | _ => .error syntaxError

/-- Reads what a search is looking for out of the words that follow the key. -/
def searchFor (terms : List Bytes) : Except Value Search := searchTerms none none terms

/-! ## The commands -/

/-- The names of the places within the search, unless a score overflows. -/
def within (search : Search) : List (Bytes × Float) → Option (List Bytes)
  | [] => some []
  | (place, score) :: places =>
    match decode score, within search places with
    | some point, some found =>
      some (if apart search.centre point ≤ search.radius then place :: found else found)
    | _, _ => none

/-- The places a key holds that lie within the search. -/
def search (key : Bytes) (terms : List Bytes) : Prog Value :=
  match searchFor terms with
  | .error error => .ret error
  | .ok search =>
    .call (.store (.on key .zmembers)) fun
      | .error _ => .ret wrongType
      | .ok places =>
        match within search places with
        | some found => .ret (.array (found.map Value.bulkString))
        | none => .call .overflow Empty.elim

/-- How far apart two of the places a key holds are.  Each is asked after in a
call of its own. -/
def distance (key source target : Bytes) (unit : Option Bytes) : Prog Value :=
  match unit.elim (.ok metres) measure with
  | .error error => .ret error
  | .ok unit =>
    .call (.store (.on key (.zscore source))) fun source =>
      .call (.store (.on key (.zscore target))) fun target =>
        match source, target with
        | .ok (some source), .ok (some target) =>
          match decode source, decode target with
          | some source, some target =>
            .ret (bulk (Platform.showFixed 4 (apart source target / unit)))
          | _, _ => .call .overflow Empty.elim
        | .error _, _ => .ret wrongType
        | _, .error _ => .ret wrongType
        | _, _ => .ret .null

/-- Writes a coordinate back out to seventeen places after the point, the noughts
on the end left off. -/
def written (coordinate : Float) : Bytes :=
  let written := (Platform.showFixed 17 coordinate).toList.reverse.dropWhile (· == '0')
  utf8 (String.ofList (written.dropWhile (· == '.')).reverse)

/-- The two numbers a score was made from. -/
def position (score : Float) : Option Value :=
  (decode score).map fun point =>
    .array [.bulkString (written point.longitude), .bulkString (written point.latitude)]

/-- Says where each of these places is, asking after one at a time. -/
def positions (key : Bytes) (found : List Value) : List Bytes → Prog Value
  | [] => .ret (.array found)
  | place :: places =>
    .call (.store (.on key (.zscore place))) fun
      | .error _ => .ret wrongType
      | .ok none => positions key (found ++ [.nullArray]) places
      | .ok (some score) =>
        match position score with
        | some position => positions key (found ++ [position]) places
        | none => .call .overflow Empty.elim

/-- Reads locations three words at a time: where each is and what it is called. -/
def locations : List Bytes → Except Value (List (Float × Bytes))
  | longitude :: latitude :: name :: rest =>
    match point longitude latitude with
    | .error error => .error error
    | .ok point => (locations rest).map fun members => (score point, name) :: members
  | _ => .ok []

/-- Puts the locations named into the sorted set at a key.  Every location is
read and looked over before any is put away. -/
def add (key : Bytes) (located : List Bytes) : Prog Value :=
  if located.length % 3 = 0 then
    match locations located with
    | .error error => .ret error
    | .ok members => ask (.on key (.zadd members)) SortedSets.added
  else .ret syntaxError

/-- Handles the commands that work on places on the earth. -/
def run (command : String) (args : List Bytes) : Option (Prog Value) :=
  match command with
  | "GEOADD" => some <|
      match args with
      | key :: longitude :: latitude :: name :: rest =>
        add key (longitude :: latitude :: name :: rest)
      | _ => .ret (wrongArity "geoadd")
  | "GEOPOS" => some <|
      match args with
      | key :: place :: places => positions key [] (place :: places)
      | _ => .ret (wrongArity "geopos")
  | "GEODIST" => some <|
      match args with
      | [key, source, target] => distance key source target none
      | [key, source, target, unit] => distance key source target (some unit)
      | _ => .ret (wrongArity "geodist")
  | "GEOSEARCH" => some <|
      match args with
      | key :: term :: terms => search key (term :: terms)
      | _ => .ret (wrongArity "geosearch")
  | _ => none

end RedisServer.Geo
