import RedisServer.Rdb

/-!
# Reading a dataset back

What a file may hold is described apart from the reader: sections in any order, each
string stored in one of its ways.  The key of a section belongs to the database last
selected before it, and goes at the time last named since the key before it.  Reading the
file gives exactly those keys.
-/

namespace RedisServer

namespace Rdb

open Layout

/-! ## How things are stored -/

/-- The ways a length is stored, by how many bits it takes. -/
inductive Width where
  | six
  | fourteen
  | thirtyTwo
  | sixtyFour
  deriving DecidableEq, Repr

def Width.bits : Width → Nat
  | .six => 6
  | .fourteen => 14
  | .thirtyTwo => 32
  | .sixtyFour => 64

/-- A length as it is stored. -/
def Width.layout : Width → Nat → Bytes
  | .six, length => [UInt8.ofNat length]
  | .fourteen, length => [UInt8.ofNat (64 + length / 256), UInt8.ofNat length]
  | .thirtyTwo, length => 0x80 :: beBytes 4 length
  | .sixtyFour, length => 0x81 :: beBytes 8 length

/-- A number stored the way lengths are. -/
structure Count where
  width : Width
  value : Nat
  fits : value < 2 ^ width.bits

def Count.layout (count : Count) : Bytes := count.width.layout count.value

/-- The widths a number may take in place of the string that spells it. -/
inductive Packing where
  | i8
  | i16
  | i32
  deriving DecidableEq, Repr

def Packing.bytes : Packing → Nat
  | .i8 => 1
  | .i16 => 2
  | .i32 => 4

def Packing.mark : Packing → UInt8
  | .i8 => 0xC0
  | .i16 => 0xC1
  | .i32 => 0xC2

/-- A string in one of the ways it may be stored. -/
inductive Stored where
  | own (width : Width) (bytes : Bytes) (fits : bytes.length < 2 ^ width.bits)
  | packed (packing : Packing) (number : Int)
      (low : -(256 ^ packing.bytes : Nat) ≤ 2 * number)
      (high : 2 * number < (256 ^ packing.bytes : Nat))
  | squeezed (stored unpacked : Width) (steps : List Lzf.Step) (proper : Lzf.Proper [] steps)
      (storedFits : (Lzf.layout steps).length < 2 ^ stored.bits)
      (unpackedFits : (Lzf.written [] steps).length < 2 ^ unpacked.bits)
      (room : (Lzf.written [] steps).length ≤ maxCapacity)

/-- The string that is stored. -/
def Stored.bytes : Stored → Bytes
  | .own _ bytes _ => bytes
  | .packed _ number _ _ => spelled number
  | .squeezed _ _ steps _ _ _ _ => Lzf.written [] steps

def Stored.layout : Stored → Bytes
  | .own width bytes _ => width.layout bytes.length ++ bytes
  | .packed packing number _ _ => packing.mark :: leBytesSigned packing.bytes number
  | .squeezed stored unpacked steps _ _ _ _ =>
    [0xC3] ++ (stored.layout (Lzf.layout steps).length ++
      (unpacked.layout (Lzf.written [] steps).length ++ Lzf.layout steps))

/-- A section of the file. -/
inductive Section where
  | auxiliary (name value : Stored)
  | database (number : Count)
  | resize (keys expiring : Count)
  | expiresAtSeconds (seconds : UInt32)
  | expiresAtMilliseconds (milliseconds : UInt64)
  | string (key value : Stored)

namespace Section

def layout : Section → Bytes
  | .auxiliary name value => [Rdb.auxiliary] ++ (name.layout ++ value.layout)
  | .database number => [Rdb.database] ++ number.layout
  | .resize keys expiring => [Rdb.resize] ++ (keys.layout ++ expiring.layout)
  | .expiresAtSeconds seconds => [Rdb.expiresAtSeconds] ++ leBytes 4 seconds.toNat
  | .expiresAtMilliseconds milliseconds =>
    [Rdb.expiresAtMilliseconds] ++ leBytes 8 milliseconds.toNat
  | .string key value => [Rdb.string] ++ (key.layout ++ value.layout)

/-- The database a section selects. -/
def selects : Section → Option Nat
  | .database number => some number.value
  | _ => none

/-- The time a section names. -/
def names : Section → Option SystemTime
  | .expiresAtSeconds seconds => some (Duration.ofSeconds seconds.toNat)
  | .expiresAtMilliseconds milliseconds => some (Duration.ofMillis milliseconds.toNat)
  | _ => none

def isKey : Section → Bool
  | .string _ _ => true
  | _ => false

end Section

/-- The database last selected, the first one unless told otherwise. -/
def databaseAfter (before : List Section) : Nat :=
  (before.reverse.findSome? Section.selects).getD 0

/-- The time last named since the last key. -/
def expiryAfter (before : List Section) : Option SystemTime :=
  (before.reverse.takeWhile fun earlier => !earlier.isKey).findSome? Section.names

/-- What a section holds for the first database, standing behind those before it. -/
def recordOf (before : List Section) : Section → Option Record
  | .string key value =>
    if databaseAfter before = 0 then some ⟨key.bytes, value.bytes, expiryAfter before⟩
    else none
  | _ => none

/-- What sections hold, standing behind those before them. -/
def recordsAfter (before : List Section) : List Section → List Record
  | [] => []
  | here :: rest => (recordOf before here).toList ++ recordsAfter (before ++ [here]) rest

/-- What a file holds. -/
def recordsOf (sections : List Section) : List Record := recordsAfter [] sections

/-- A file: the magic word, four bytes of version, the sections, the mark of the end, and
whatever comes after. -/
def fileOf (version : UInt8 × UInt8 × UInt8 × UInt8) (sections : List Section)
    (trailing : Bytes) : Bytes :=
  magic ++ [version.1, version.2.1, version.2.2.1, version.2.2.2] ++
    (sections.flatMap Section.layout ++ [ending]) ++ trailing

/-! ## Fields -/

theorem undoes_take (bytes : Bytes) : Undoes maxCapacity (take bytes.length) bytes bytes := by
  intro before rest fits
  have room : (before ++ bytes ++ rest).length = before.length + bytes.length + rest.length := by
    simp [Nat.add_assoc]
  have small : before.length + bytes.length < 2 ^ 64 := by
    unfold maxCapacity at fits
    omega
  simp only [take]
  rw [if_neg (by omega), if_neg (by omega)]
  simp

/-- A field whose width is known. -/
theorem undoes_fixed {width : Nat} {bytes : Bytes} (isWidth : bytes.length = width) :
    Undoes maxCapacity (take width) bytes bytes := by
  rw [← isWidth]
  exact undoes_take bytes

theorem undoes_byte (first : UInt8) : Undoes maxCapacity byte [first] first := by
  refine (undoes_take [first]).bind_nil ?_
  exact .pure first

theorem toNat_shiftRight_six (first : UInt8) : (first >>> 6).toNat = first.toNat / 64 := by
  simp [UInt8.toNat_shiftRight, Nat.shiftRight_eq_div_pow]

theorem toNat_shiftRight_five (first : UInt8) : (first >>> 5).toNat = first.toNat / 32 := by
  simp [UInt8.toNat_shiftRight, Nat.shiftRight_eq_div_pow]

theorem toNat_and_lowSix (first : UInt8) : (first &&& 0x3f).toNat = first.toNat % 64 := by
  rw [UInt8.toNat_and]
  exact Nat.and_two_pow_sub_one_eq_mod first.toNat 6

theorem toNat_and_lowFive (first : UInt8) : (first &&& 0x1f).toNat = first.toNat % 32 := by
  rw [UInt8.toNat_and]
  exact Nat.and_two_pow_sub_one_eq_mod first.toNat 5

theorem toNat_ofNat_of_lt {number : Nat} (small : number < 256) :
    (UInt8.ofNat number).toNat = number := by
  rw [UInt8.toNat_ofNat', Nat.mod_eq_of_lt small]

theorem undoes_length (width : Width) {number : Nat} (fits : number < 2 ^ width.bits) :
    Undoes maxCapacity length (width.layout number) (.of number) := by
  cases width with
  | six =>
    have small : number < 64 := fits
    have first := toNat_ofNat_of_lt (by omega : number < 256)
    have top : (UInt8.ofNat number >>> 6).toNat = 0 := by
      rw [toNat_shiftRight_six, first]
      omega
    have low : (UInt8.ofNat number &&& 0x3f).toNat = number := by
      rw [toNat_and_lowSix, first]
      omega
    refine (undoes_byte _).bind_nil ?_
    simp only [top, low]
    exact .pure _
  | fourteen =>
    have small : number < 16384 := fits
    have first := toNat_ofNat_of_lt (by omega : 64 + number / 256 < 256)
    have top : (UInt8.ofNat (64 + number / 256) >>> 6).toNat = 1 := by
      rw [toNat_shiftRight_six, first]
      omega
    have low : (UInt8.ofNat (64 + number / 256) &&& 0x3f).toNat * 256 +
        (UInt8.ofNat number).toNat = number := by
      rw [toNat_and_lowSix, first, UInt8.toNat_ofNat']
      omega
    refine (undoes_byte _).bind ?_
    simp only [top]
    refine (undoes_byte _).bind_nil ?_
    rw [low]
    exact .pure _
  | thirtyTwo =>
    refine (undoes_byte 0x80).bind ((undoes_fixed (length_beBytes 4 number)).bind_nil ?_)
    rw [ofBe_beBytes (by simpa [Width.bits] using fits)]
    exact .pure _
  | sixtyFour =>
    refine (undoes_byte 0x81).bind ((undoes_fixed (length_beBytes 8 number)).bind_nil ?_)
    rw [ofBe_beBytes (by simpa [Width.bits] using fits)]
    exact .pure _

theorem undoes_count (number : Count) :
    Undoes maxCapacity count number.layout number.value :=
  (undoes_length number.width number.fits).bind_nil (.pure _)

/-- What was being read does not matter if it was read. -/
theorem undoes_context {α : Type} {read : Reading α} {layout : Bytes} {value : α}
    (undoes : Undoes maxCapacity read layout value) (about : Refusal → Refusal) :
    Undoes maxCapacity (context about read) layout value := by
  intro before rest fits
  rw [context, undoes before rest fits]

/-! ## LZF -/

theorem copy_stretch {out : Bytes} {distance : Nat} (positive : 1 ≤ distance)
    (within : distance ≤ out.length) (count done : Nat) :
    copy count (out.length - distance + done) (out ++ Lzf.stretch out distance done) =
      some (out ++ Lzf.stretch out distance (done + count)) := by
  induction count generalizing done with
  | zero => rfl
  | succ count ih =>
    obtain ⟨byte, next, isNext⟩ := Lzf.stretch_succ positive within done
    rw [copy, next, Option.bind_some, List.append_assoc, ← isNext, Nat.add_assoc, ih,
      Nat.add_right_comm, Nat.add_assoc]

/-- A stretch is written again whichever way its length is stored. -/
theorem repeated_stretch {control : UInt8} {out : Bytes} {length distance high : Nat}
    (isControl : control.toNat % 32 = high) (isHigh : high = (distance - 1) / 256)
    (positive : 1 ≤ distance) (within : distance ≤ out.length) (rest : Bytes) :
    repeated control length out (UInt8.ofNat (distance - 1) :: rest) =
      .ok (out ++ Lzf.stretch out distance (length + 2), rest) := by
  have isDistance : (control &&& 0x1f).toNat * 256 + (UInt8.ofNat (distance - 1)).toNat + 1 =
      distance := by
    rw [toNat_and_lowFive, isControl, isHigh, UInt8.toNat_ofNat']
    omega
  have copied := copy_stretch positive within (length + 2) 0
  simp only [Nat.add_zero, Nat.zero_add, Lzf.stretch, List.range_zero, List.map_nil,
    List.append_nil] at copied
  simp only [repeated, isDistance]
  rw [if_neg (by omega), copied]
  rfl

/-- The reader follows a proper instruction to the letter. -/
theorem follow_layout {out : Bytes} {step : Lzf.Step} (proper : step.Proper out)
    (rest : Bytes) :
    ∃ control others, step.layout ++ rest = control :: others ∧
      follow control others out = .ok (step.write out, rest) := by
  cases step with
  | run bytes =>
    obtain ⟨some, few⟩ := proper
    have control := toNat_ofNat_of_lt (by omega : bytes.length - 1 < 256)
    have isRun : (UInt8.ofNat (bytes.length - 1)).toNat + 1 = bytes.length := by omega
    refine ⟨_, bytes ++ rest, rfl, ?_⟩
    simp only [follow, isRun]
    rw [if_pos (UInt8.lt_iff_toNat_lt.mpr (by simp only [control]; simp; omega)),
      if_neg (by simp)]
    simp [Lzf.Step.write]
  | again length distance =>
    obtain ⟨⟨long, short⟩, ⟨positive, near⟩, within⟩ := proper
    have isHigh : (distance - 1) / 256 < 32 := by omega
    have isLong {control : UInt8} (large : 32 ≤ control.toNat) : ¬ control < 0x20 := by
      rw [UInt8.lt_iff_toNat_lt]
      simpa using large
    by_cases fits : length < 9
    · have control := toNat_ofNat_of_lt
        (by omega : (length - 2) * 32 + (distance - 1) / 256 < 256)
      refine ⟨UInt8.ofNat ((length - 2) * 32 + (distance - 1) / 256),
        UInt8.ofNat (distance - 1) :: rest, by rw [Lzf.Step.layout, if_pos fits]; rfl, ?_⟩
      have isLength : (UInt8.ofNat ((length - 2) * 32 + (distance - 1) / 256) >>> 5).toNat =
          length - 2 := by
        rw [toNat_shiftRight_five, control]
        omega
      simp only [follow, isLength]
      rw [if_neg (isLong (by omega)), if_neg (by omega),
        repeated_stretch (by omega) rfl positive within]
      simp [Lzf.Step.write, Nat.sub_add_cancel (by omega : 2 ≤ length)]
    · have control := toNat_ofNat_of_lt (by omega : 7 * 32 + (distance - 1) / 256 < 256)
      have more := toNat_ofNat_of_lt (by omega : length - 9 < 256)
      refine ⟨UInt8.ofNat (7 * 32 + (distance - 1) / 256),
        UInt8.ofNat (length - 9) :: UInt8.ofNat (distance - 1) :: rest,
        by rw [Lzf.Step.layout, if_neg fits]; rfl, ?_⟩
      have isLength : (UInt8.ofNat (7 * 32 + (distance - 1) / 256) >>> 5).toNat = 7 := by
        rw [toNat_shiftRight_five, control]
        omega
      simp only [follow, isLength, more, if_true]
      rw [if_neg (isLong (by omega)),
        repeated_stretch (by omega) rfl positive within]
      simp [Lzf.Step.write, (by omega : 7 + (length - 9) + 2 = length)]

theorem length_layout_pos (step : Lzf.Step) : 0 < step.layout.length := by
  cases step with
  | run bytes => simp [Lzf.Step.layout]
  | again length distance =>
    simp only [Lzf.Step.layout]
    split <;> simp

/-- The reader follows proper instructions to the end. -/
theorem unsqueezeAll_layout {out : Bytes} {steps : List Lzf.Step} (proper : Lzf.Proper out steps)
    {turns : Nat} (enough : (Lzf.layout steps).length ≤ turns) :
    unsqueezeAll turns (Lzf.layout steps) out = .ok (Lzf.written out steps) := by
  induction steps generalizing out turns with
  | nil => cases turns <;> rfl
  | cons step steps ih =>
    obtain ⟨control, others, isLayout, followed⟩ :=
      follow_layout proper.1 (Lzf.layout steps)
    have whole : Lzf.layout (step :: steps) = step.layout ++ Lzf.layout steps := by
      simp [Lzf.layout]
    have longer := length_layout_pos step
    rw [whole, List.length_append] at enough
    cases turns with
    | zero => omega
    | succ turns =>
      rw [whole, isLayout, unsqueezeAll, followed]
      exact ih proper.2 (by omega)

theorem letOut_layout {steps : List Lzf.Step} (proper : Lzf.Proper [] steps) :
    letOut (Lzf.layout steps) (Lzf.written [] steps).length = .ok (Lzf.written [] steps) := by
  rw [letOut, unsqueezeAll_layout proper le_rfl]
  simp

/-! ## Strings -/

theorem undoes_mark (mark : UInt8) (packed : (mark >>> 6).toNat = 3) :
    Undoes maxCapacity length [mark] (.packed (mark &&& 0x3f)) := by
  refine (undoes_byte mark).bind_nil ?_
  simp only [packed]
  exact .pure _

/-- A string stored in any of its ways is read back. -/
theorem undoes_string (stored : Stored) :
    Undoes maxCapacity readString stored.layout stored.bytes := by
  cases stored with
  | own width bytes fits => exact (undoes_length width fits).bind (undoes_take bytes)
  | packed packing number low high =>
    have spelling : ofLeSigned (leBytesSigned packing.bytes number) = number :=
      ofLeSigned_leBytesSigned low high
    have field := undoes_fixed (length_leBytesSigned packing.bytes number)
    have spelledOut : Undoes maxCapacity
        (pure (spelled (ofLeSigned (leBytesSigned packing.bytes number))) : Reading Bytes) []
        (spelled number) := by
      rw [spelling]
      exact .pure _
    cases packing with
    | i8 => exact (undoes_mark 0xC0 rfl).bind (field.bind_nil spelledOut)
    | i16 => exact (undoes_mark 0xC1 rfl).bind (field.bind_nil spelledOut)
    | i32 => exact (undoes_mark 0xC2 rfl).bind (field.bind_nil spelledOut)
  | squeezed stored unpacked steps proper storedFits unpackedFits room =>
    have letOut : Undoes maxCapacity
        (fun reader : Reader =>
          (unsqueeze (Lzf.layout steps) (Lzf.written [] steps).length).map
            fun bytes => (bytes, reader)) [] (Lzf.written [] steps) := by
      intro before rest fits
      rw [unsqueeze_small _ room, letOut_layout proper]
      rfl
    have first := undoes_context (undoes_count ⟨stored, _, storedFits⟩) .squeezedLength
    have second := undoes_context (undoes_count ⟨unpacked, _, unpackedFits⟩) .unsqueezedLength
    refine (undoes_mark 0xC3 rfl).bind (first.bind (second.bind ?_))
    exact (undoes_take _).bind_nil letOut

/-! ## Sections -/

theorem undoes_timed {span : Duration} (fits : span < 2 ^ 63 * 1000000000) :
    Undoes maxCapacity (timed span) [] span := by
  have isTime : sinceEpoch span = some span := by
    rw [sinceEpoch, instantAdd, Nat.zero_add, if_pos fits]
  rw [timed, isTime]
  exact .pure _

/-- What is carried on stands for the sections read so far. -/
structure Gathering.After (gathering : Gathering) (before : List Section) : Prop where
  database : gathering.database = databaseAfter before
  expiresAt : gathering.expiresAt = expiryAfter before

theorem databaseAfter_concat (before : List Section) (here : Section) :
    databaseAfter (before ++ [here]) = here.selects.getD (databaseAfter before) := by
  cases selects : here.selects <;> simp [databaseAfter, selects]

theorem expiryAfter_concat (before : List Section) (here : Section) :
    expiryAfter (before ++ [here]) =
      if here.isKey then none else here.names.or (expiryAfter before) := by
  by_cases isKey : here.isKey
  · simp [expiryAfter, isKey]
  · cases names : here.names <;> simp [expiryAfter, isKey, names]

/-- Reading a section leaves what is carried on standing for one section more, and adds
the key it holds. -/
theorem undoes_section {gathering : Gathering} {before : List Section}
    (after : gathering.After before) (here : Section) :
    ∃ next : Gathering, next.After (before ++ [here]) ∧
      next.records = gathering.records ++ (recordOf before here).toList ∧
      ∃ kind fields, here.layout = kind :: fields ∧
        Undoes maxCapacity (readSection gathering kind) fields (some next) := by
  obtain ⟨sameDatabase, sameExpiry⟩ := after
  have carried (other : here.isKey = false) (database : Nat) (expiresAt : Option SystemTime)
      (isDatabase : database = here.selects.getD gathering.database)
      (isExpiry : expiresAt = here.names.or gathering.expiresAt) :
      Gathering.After ⟨gathering.records, database, expiresAt⟩ (before ++ [here]) := by
    refine ⟨?_, ?_⟩
    · rw [databaseAfter_concat, ← sameDatabase, isDatabase]
    · rw [expiryAfter_concat, other, ← sameExpiry, isExpiry]
      rfl
  cases here with
  | auxiliary name value =>
    refine ⟨gathering, carried rfl _ _ rfl rfl, by simp [recordOf], _, _, rfl, ?_⟩
    exact (undoes_string name).bind ((undoes_string value).bind_nil (.pure _))
  | database number =>
    refine ⟨{ gathering with database := number.value }, carried rfl _ _ rfl rfl,
      by simp [recordOf], _, _, rfl, ?_⟩
    exact (undoes_count number).bind_nil (.pure _)
  | resize keys expiring =>
    refine ⟨gathering, carried rfl _ _ rfl rfl, by simp [recordOf], _, _, rfl, ?_⟩
    exact (undoes_count keys).bind ((undoes_count expiring).bind_nil (.pure _))
  | expiresAtSeconds seconds =>
    refine ⟨{ gathering with expiresAt := some (Duration.ofSeconds seconds.toNat) },
      carried rfl _ _ rfl rfl, by simp [recordOf], _, _, rfl, ?_⟩
    refine (undoes_fixed (length_leBytes 4 _)).bind_nil ?_
    rw [ofLe_leBytes (by simpa using seconds.toNat_lt)]
    refine (undoes_timed ?_).bind_nil (.pure _)
    have small := seconds.toNat_lt
    change seconds.toNat * 1000000000 < 2 ^ 63 * 1000000000
    omega
  | expiresAtMilliseconds milliseconds =>
    refine ⟨{ gathering with expiresAt := some (Duration.ofMillis milliseconds.toNat) },
      carried rfl _ _ rfl rfl, by simp [recordOf], _, _, rfl, ?_⟩
    refine (undoes_fixed (length_leBytes 8 _)).bind_nil ?_
    rw [ofLe_leBytes (by simpa using milliseconds.toNat_lt)]
    refine (undoes_timed ?_).bind_nil (.pure _)
    have small := milliseconds.toNat_lt
    change milliseconds.toNat * 1000000 < 2 ^ 63 * 1000000000
    omega
  | string key value =>
    refine ⟨_, ⟨?_, ?_⟩, ?_, _, _, rfl,
      (undoes_string key).bind ((undoes_string value).bind_nil (.pure _))⟩
    · rw [databaseAfter_concat, ← sameDatabase]
      rfl
    · rw [expiryAfter_concat]
      rfl
    · simp only [recordOf, ← sameDatabase, ← sameExpiry]
      split <;> simp

/-- Reading sections up to the mark of the end gathers what they hold. -/
theorem undoes_sections {gathering : Gathering} {before : List Section}
    (after : gathering.After before) (sections : List Section) {turns : Nat}
    (enough : sections.length < turns) :
    Undoes maxCapacity (readSections turns gathering)
      (sections.flatMap Section.layout ++ [ending])
      (gathering.records ++ recordsAfter before sections) := by
  induction sections generalizing gathering before turns with
  | nil =>
    cases turns with
    | zero => omega
    | succ turns =>
      have ended : Undoes maxCapacity (readSection gathering ending) [] none := .pure none
      rw [recordsAfter, List.append_nil]
      exact (undoes_byte ending).bind_nil (ended.bind_nil (.pure _))
  | cons here sections ih =>
    cases turns with
    | zero => omega
    | succ turns =>
      obtain ⟨next, nextAfter, records, kind, fields, isLayout, undoes⟩ :=
        undoes_section after here
      have whole : (here :: sections).flatMap Section.layout ++ [ending] =
          [kind] ++ (fields ++ (sections.flatMap Section.layout ++ [ending])) := by
        simp [isLayout]
      have gathered : gathering.records ++ recordsAfter before (here :: sections) =
          next.records ++ recordsAfter (before ++ [here]) sections := by
        simp [recordsAfter, records]
      rw [whole, gathered]
      refine (undoes_byte kind).bind (undoes.bind ?_)
      exact ih nextAfter (by simpa using enough)

theorem undoes_header (version : UInt8 × UInt8 × UInt8 × UInt8) :
    Undoes maxCapacity header
      (magic ++ [version.1, version.2.1, version.2.2.1, version.2.2.2]) () := by
  refine (undoes_context (undoes_fixed ?_) .tooShort).bind_nil ?_
  · rfl
  · have opens : magic.isPrefixOf
        (magic ++ [version.1, version.2.1, version.2.2.1, version.2.2.2]) := by
      simp
    rw [if_pos opens]
    exact .pure ()

theorem length_section_pos (here : Section) : 0 < here.layout.length := by
  cases here <;> simp [Section.layout]

theorem length_le_flatMap_layout (sections : List Section) :
    sections.length ≤ (sections.flatMap Section.layout).length := by
  induction sections with
  | nil => exact Nat.zero_le _
  | cons here sections ih =>
    have longer := length_section_pos here
    simp only [List.flatMap_cons, List.length_cons, List.length_append]
    omega

/-- Reading a file made of any sections, in any order and with every string stored in any of
its ways, gives exactly the keys of the first database in the order of the file, each with
what its ways of storing stand for and the time last named since the key before it. -/
theorem dataset_of_file (version : UInt8 × UInt8 × UInt8 × UInt8) (sections : List Section)
    (trailing : Bytes) (fits : (fileOf version sections trailing).length ≤ maxCapacity) :
    (dataset ⟨fileOf version sections trailing, 0⟩).map Prod.fst = .ok (recordsOf sections) := by
  have enough : sections.length < (fileOf version sections trailing).length + 1 := by
    have shorter := length_le_flatMap_layout sections
    simp only [fileOf, List.length_append]
    omega
  have gathers := undoes_sections (⟨rfl, rfl⟩ : Gathering.After {} []) sections enough
  have reads : Undoes maxCapacity
      (do header; readSections ((fileOf version sections trailing).length + 1) {})
      (magic ++ [version.1, version.2.1, version.2.2.1, version.2.2.2] ++
        (sections.flatMap Section.layout ++ [ending])) (recordsOf sections) :=
    (undoes_header version).bind gathers
  have isFile : [] ++ (magic ++ [version.1, version.2.1, version.2.2.1, version.2.2.2] ++
      (sections.flatMap Section.layout ++ [ending])) ++ trailing =
      fileOf version sections trailing := rfl
  have read := reads [] trailing (isFile ▸ fits)
  rw [isFile] at read
  simp only [dataset]
  exact congrArg (Except.map Prod.fst) read

/-- A key with a time on it, one of another database whose name is squeezed, and one of the
first database again that is stored as a number. -/
def savedSections : List Section :=
  let short (text : String) (fits : (utf8 text).length < 2 ^ Width.six.bits) : Stored :=
    .own .six (utf8 text) fits
  [.auxiliary (short "redis-ver" (by decide)) (.own .fourteen (utf8 "7.2.0") (by decide)),
    .expiresAtSeconds 2000000000,
    .string (short "a" (by decide)) (.packed .i8 (-42) (by decide) (by decide)),
    .database ⟨.six, 1, by decide⟩,
    .expiresAtMilliseconds 7,
    .string
      (.squeezed .six .six [.run [97], .again 19 1] (by decide) (by decide) (by decide)
        (by decide))
      (short "" (by decide)),
    .database ⟨.thirtyTwo, 0, by decide⟩,
    .string (.own .sixtyFour (utf8 "c") (by decide))
      (.packed .i32 100000 (by decide) (by decide))]

theorem dataset_of_saved :
    (dataset ⟨fileOf (48, 48, 49, 49) savedSections [1, 2, 3], 0⟩).map Prod.fst =
      .ok [⟨utf8 "a", utf8 "-42", some (Duration.ofSeconds 2000000000)⟩,
        ⟨utf8 "c", utf8 "100000", none⟩] := by
  rw [dataset_of_file _ _ _ (by decide)]
  rfl

end Rdb

end RedisServer
