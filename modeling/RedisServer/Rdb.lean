import RedisServer.Lib.Layout
import RedisServer.Lib.Lzf
import RedisServer.Store.State

/-!
# The file a dataset is kept in

`Reader` keeps its place in the file and reads it section by section; `dataset` gathers
the keys.  A string may be stored as its own bytes, as a number of one of three widths, or
squeezed by LZF.
-/

namespace RedisServer

namespace Rdb

/-- What every file opens with, followed by four digits naming the version. -/
def magic : Bytes := utf8 "REDIS"

def headerLength : Nat := magic.length + 4

def auxiliary : UInt8 := 0xFA

def resize : UInt8 := 0xFB

def expiresAtMilliseconds : UInt8 := 0xFC

def expiresAtSeconds : UInt8 := 0xFD

def database : UInt8 := 0xFE

def ending : UInt8 := 0xFF

/-- A key holding a string, the one kind that is read. -/
def string : UInt8 := 0x00

def asI8 : UInt8 := 0

def asI16 : UInt8 := 1

def asI32 : UInt8 := 2

def squeezed : UInt8 := 3

/-- A time by the system's clock, in nanoseconds since the epoch. -/
abbrev SystemTime := Nat

/-- `UNIX_EPOCH + Duration`, which panics past what 64 signed bits of seconds hold. -/
def sinceEpoch (span : Duration) : Option SystemTime := instantAdd 0 span

/-- One key as it was saved. -/
structure Record where
  key : Bytes
  value : Bytes
  /-- When the key was to go, for the ones saved with a time on them. -/
  expiresAt : Option SystemTime
  deriving DecidableEq, Repr

/-- Why a file is turned down, with what the message names. -/
inductive Refusal where
  /-- "too short to be a dataset" -/
  | tooShort (cause : Refusal)
  /-- "not a dataset: it opens with …" -/
  | notADataset (opens : Bytes)
  /-- "a value of a kind this server cannot read (…)" -/
  | unreadableKind (kind : UInt8)
  /-- "a length stored in a way this server cannot read (…)" -/
  | unreadableLength (first : UInt8)
  /-- "a count packed as if it were a string (…)" -/
  | packedCount (how : UInt8)
  /-- "a string packed in a way this server cannot read (…)" -/
  | unreadableString (how : UInt8)
  /-- "the length of a squeezed string" -/
  | squeezedLength (cause : Refusal)
  /-- "the length of an unsqueezed string" -/
  | unsqueezedLength (cause : Refusal)
  /-- "a length larger than any file" -/
  | largerThanAnyFile
  /-- "wanted … bytes at … of a file … long" -/
  | pastTheEnd (wanted place size : Nat)
  /-- "a run of bytes reaching past the end" -/
  | runPastTheEnd
  /-- "a length reaching past the end" -/
  | lengthPastTheEnd
  /-- "a distance reaching past the end" -/
  | distancePastTheEnd
  /-- "a distance reaching back past the start" -/
  | distancePastTheStart
  /-- "a squeezed string let out to … bytes rather than …" -/
  | letOutTo (bytes rather : Nat)
  deriving DecidableEq, Repr

/-- How a reading may end other than well. -/
inductive Failure where
  | refused (refusal : Refusal)
  | panicked
  /-- The allocator does not serve what is asked of it, which ends the process. -/
  | aborted
  /-- The bound on the number of turns of a loop is too small. -/
  | unfinished
  deriving DecidableEq, Repr

abbrev Reader := Layout.Cursor UInt8

abbrev Reading := Layout.Reader UInt8 Failure

def fail {α : Type} (failure : Failure) : Reading α := fun _ => .error failure

/-- Says what was being read when a reading was refused. -/
def context {α : Type} (about : Refusal → Refusal) (read : Reading α) : Reading α := fun reader =>
  match read reader with
  | .error (.refused refusal) => .error (.refused (about refusal))
  | result => result

/-! ## Letting out what was squeezed -/

/-- Copies so many bytes one at a time, each from where the last one was taken.  `none` is
an index out of range. -/
def copy : (count source : Nat) → Bytes → Option Bytes
  | 0, _, out => some out
  | count + 1, source, out =>
    out[source]?.bind fun byte => copy count (source + 1) (out ++ [byte])

/-- Writes a stretch again: the distance is read first, and what has been written must
reach back that far. -/
def repeated (control : UInt8) (length : Nat) (out : Bytes) :
    Bytes → Except Failure (Bytes × Bytes)
  | [] => .error (.refused .distancePastTheEnd)
  | low :: rest =>
    let distance := (control &&& 0x1f).toNat * 256 + low.toNat
    if out.length < distance + 1 then .error (.refused .distancePastTheStart)
    else
      match copy (length + 2) (out.length - (distance + 1)) out with
      | some out => .ok (out, rest)
      | none => .error .panicked

/-- One instruction, given its control byte and what is stored after it. -/
def follow (control : UInt8) (rest out : Bytes) : Except Failure (Bytes × Bytes) :=
  if control < 0x20 then
    let run := control.toNat + 1
    if rest.length < run then .error (.refused .runPastTheEnd)
    else .ok (out ++ rest.take run, rest.drop run)
  else
    let length := (control >>> 5).toNat
    if length = 7 then
      match rest with
      | [] => .error (.refused .lengthPastTheEnd)
      | more :: rest => repeated control (length + more.toNat) out rest
    else repeated control length out rest

/-- Follows the instructions until none are left. -/
def unsqueezeAll : Nat → Bytes → Bytes → Except Failure Bytes
  | _, [], out => .ok out
  | 0, _ :: _, _ => .error .unfinished
  | turns + 1, control :: rest, out =>
    match follow control rest out with
    | .error failure => .error failure
    | .ok (out, rest) => unsqueezeAll turns rest out

/-- The most room a vector can be asked to hold. -/
def maxCapacity : Nat := 2 ^ 63 - 1

/-- What the allocator serves: never more than a vector can hold, and nothing at all is
served at no cost. -/
structure Allocator where
  serves : Nat → Bool
  nothing : serves 0 = true
  bounded : ∀ size, serves size = true → size ≤ maxCapacity

/-- The allocator of a machine with so much room. -/
def Allocator.upTo (room : Nat) : Allocator where
  serves size := size ≤ room && size ≤ maxCapacity
  nothing := by simp
  bounded size served := by simpa using (Bool.and_eq_true_iff.mp served).2

/-- Follows the instructions into a vector that has been made, and sees that they have
written as much as they were said to. -/
def letOut (squeezed : Bytes) (unpacked : Nat) : Except Failure Bytes :=
  match unsqueezeAll squeezed.length squeezed [] with
  | .error failure => .error failure
  | .ok out =>
    if out.length = unpacked then .ok out
    else .error (.refused (.letOutTo out.length unpacked))

/-- Lets a string out of the LZF packing it was squeezed into.  Room for it is asked for
first of all; what is pushed past that room is taken to be served. -/
def unsqueezeWith (allocator : Allocator) (squeezed : Bytes) (unpacked : Nat) :
    Except Failure Bytes :=
  if maxCapacity < unpacked then .error .panicked
  else if !allocator.serves unpacked then .error .aborted
  else letOut squeezed unpacked

/-- The same on a machine that has room for whatever a vector can hold. -/
def unsqueeze (squeezed : Bytes) (unpacked : Nat) : Except Failure Bytes :=
  unsqueezeWith (.upTo maxCapacity) squeezed unpacked

theorem unsqueezeWith_served {allocator : Allocator} (squeezed : Bytes) {unpacked : Nat}
    (served : allocator.serves unpacked = true) :
    unsqueezeWith allocator squeezed unpacked = letOut squeezed unpacked := by
  have small := Nat.not_lt.mpr (allocator.bounded _ served)
  rw [unsqueezeWith, if_neg small, if_neg (by simp [served])]

theorem unsqueeze_small (squeezed : Bytes) {unpacked : Nat} (small : unpacked ≤ maxCapacity) :
    unsqueeze squeezed unpacked = letOut squeezed unpacked :=
  unsqueezeWith_served squeezed (by simp [Allocator.upTo, small])

theorem unsqueeze_large (squeezed : Bytes) {unpacked : Nat} (large : maxCapacity < unpacked) :
    unsqueeze squeezed unpacked = .error .panicked := if_pos large

/-! ## Fields -/

/-- Takes the next so many bytes. -/
def take (length : Nat) : Reading Bytes := fun reader =>
  let stop := reader.place + length
  if 2 ^ 64 ≤ stop then .error (.refused .largerThanAnyFile)
  else if reader.file.length < stop then
    .error (.refused (.pastTheEnd length reader.place reader.file.length))
  else .ok ((reader.file.drop reader.place).take length, { reader with place := stop })

def byte : Reading UInt8 := do
  match ← take 1 with
  | first :: _ => pure first
  | [] => fail .panicked

/-- What the front of a length turned out to say. -/
inductive Length where
  | of (length : Nat)
  | packed (how : UInt8)

/-- Reads a length.  The top two bits of the first byte say how it is stored. -/
def length : Reading Length := do
  let first ← byte
  match (first >>> 6).toNat with
  | 0 => pure (.of (first &&& 0x3f).toNat)
  | 1 => do
      let rest ← byte
      pure (.of ((first &&& 0x3f).toNat * 256 + rest.toNat))
  | 2 =>
    if first = 0x80 then do
      let bytes ← take 4
      pure (.of (Layout.ofBe bytes))
    else if first = 0x81 then do
      let bytes ← take 8
      pure (.of (Layout.ofBe bytes))
    else fail (.refused (.unreadableLength first))
  | _ => pure (.packed (first &&& 0x3f))

/-- Reads a number stored the way lengths are. -/
def count : Reading Nat := do
  match ← length with
  | .of count => pure count
  | .packed how => fail (.refused (.packedCount how))

/-- A number as the string it stands for. -/
def spelled (number : Int) : Bytes := utf8 (toString number)

/-- Reads a string squeezed down, its length given as it is stored and as it will be. -/
def readSqueezed : Reading Bytes := do
  let stored ← context .squeezedLength count
  let unpacked ← context .unsqueezedLength count
  let squeezed ← take stored
  fun reader => (unsqueeze squeezed unpacked).map fun bytes => (bytes, reader)

/-- Reads a string: its own bytes, or whatever was stored in their place. -/
def readString : Reading Bytes := do
  match ← length with
  | .of length => take length
  | .packed how =>
    if how = asI8 then do
      let bytes ← take 1
      pure (spelled (Layout.ofLeSigned bytes))
    else if how = asI16 then do
      let bytes ← take 2
      pure (spelled (Layout.ofLeSigned bytes))
    else if how = asI32 then do
      let bytes ← take 4
      pure (spelled (Layout.ofLeSigned bytes))
    else if how = squeezed then readSqueezed
    else fail (.refused (.unreadableString how))

/-! ## The whole file -/

/-- Makes sure this is a dataset at all. -/
def header : Reading Unit := do
  let opening ← context .tooShort (take headerLength)
  if magic.isPrefixOf opening then pure ()
  else fail (.refused (.notADataset opening))

/-- A time read from the file. -/
def timed (span : Duration) : Reading SystemTime :=
  match sinceEpoch span with
  | some time => pure time
  | none => fail .panicked

/-- What is carried from section to section: the keys gathered so far, the database they
belong to, and the time set aside for the next one. -/
structure Gathering where
  records : List Record := []
  database : Nat := 0
  expiresAt : Option SystemTime := none

/-- Reads one section, given the byte that names it.  `none` is the end of the file. -/
def readSection (gathering : Gathering) (kind : UInt8) : Reading (Option Gathering) :=
  if kind = ending then pure none
  else if kind = auxiliary then do
    let _ ← readString
    let _ ← readString
    pure (some gathering)
  else if kind = database then do
    let number ← count
    pure (some { gathering with database := number })
  else if kind = resize then do
    let _ ← count
    let _ ← count
    pure (some gathering)
  else if kind = expiresAtSeconds then do
    let bytes ← take 4
    let time ← timed (Duration.ofSeconds (Layout.ofLe bytes))
    pure (some { gathering with expiresAt := some time })
  else if kind = expiresAtMilliseconds then do
    let bytes ← take 8
    let time ← timed (Duration.ofMillis (Layout.ofLe bytes))
    pure (some { gathering with expiresAt := some time })
  else if kind = string then do
    let key ← readString
    let value ← readString
    pure (some
      { gathering with
        records :=
          if gathering.database = 0 then
            gathering.records ++ [⟨key, value, gathering.expiresAt⟩]
          else gathering.records
        expiresAt := none })
  else fail (.refused (.unreadableKind kind))

/-- Reads sections until the end is marked. -/
def readSections : Nat → Gathering → Reading (List Record)
  | 0, _ => fail .unfinished
  | turns + 1, gathering => do
      let kind ← byte
      match ← readSection gathering kind with
      | none => pure gathering.records
      | some gathering => readSections turns gathering

/-- Reads the whole file, gathering the keys it holds. -/
def dataset : Reading (List Record) := fun reader =>
  (do header; readSections (reader.file.length + 1) {} : Reading (List Record)) reader

end Rdb

end RedisServer
