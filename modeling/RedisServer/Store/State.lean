import RedisServer.Lib.Map
import RedisServer.Store.EntryId
import RedisServer.Store.SortedSet

/-!
# The state of the store

The pieces every data type needs: the table of entries, expiry, the counter that
stamps changes, and the queues of clients waiting on a key.  Each operation of
the store takes the lock once and so is one atomic step; here it is a function
of the state and of one reading of the clock.

A waiting client is known by a number.  What it holds of the store is a one-shot
channel an element may be handed over on, or a waker that tells it a stream has
grown; both are kept beside the queues that name them.
-/

namespace RedisServer

/-- A moment, in nanoseconds since the machine started. -/
abbrev Instant := Nat

/-- A span of time, in nanoseconds. -/
abbrev Duration := Nat

def Duration.ofSeconds (seconds : Nat) : Duration := seconds * 1000000000

def Duration.ofMillis (milliseconds : Nat) : Duration := milliseconds * 1000000

/-- `Instant + Duration`, which panics past what 64 signed bits of seconds
hold. -/
def instantAdd (moment : Instant) (span : Duration) : Option Instant :=
  if moment + span < 2 ^ 63 * 1000000000 then some (moment + span) else none

/-- The contents of a key. -/
inductive Data where
  | string (value : Bytes)
  | list (elements : List Bytes)
  | stream (entries : List StreamEntry)
  | sortedSet (members : SortedSet Float)
  deriving DecidableEq

/-- What a key holds, when it lapses, and the change that made it so. -/
structure Entry where
  data : Data
  expiresAt : Option Instant
  version : Nat
  deriving DecidableEq

namespace Entry

/-- An entry that never lapses. -/
def new (data : Data) (version : Nat) : Entry := ⟨data, none, version⟩

/-- Whether an entry's time has passed. -/
def hasExpired (now : Instant) (entry : Entry) : Bool :=
  match entry.expiresAt with
  | none => false
  | some deadline => deadline ≤ now

end Entry

abbrev Entries := Map Bytes Entry

/-- What has become of the one-shot channel of a client that had to wait. -/
inductive Oneshot where
  | waiting
  | handed (element : Bytes)
  | closed
  deriving DecidableEq, Repr

/-- A client's waker: whether it has been told, and whether the client still
holds on to it. -/
structure Waker where
  permit : Bool
  held : Bool
  deriving DecidableEq, Repr

/-- The state behind the store's lock, with the channels and wakers it has
handed out. -/
structure State where
  entries : Entries := ∅
  /-- Clients blocked on a key, in the order they started waiting. -/
  waiters : Map Bytes (List Nat) := ∅
  /-- Clients waiting for a stream to grow. -/
  watchers : Map Bytes (List Nat) := ∅
  /-- Counts the changes made to any key. -/
  changes : Nat := 0
  oneshots : Map Nat Oneshot := ∅
  wakers : Map Nat Waker := ∅
  /-- How many channels and wakers have been made. -/
  handles : Nat := 0

instance : Inhabited State := ⟨{}⟩

/-- Returned when a command is used on a key holding another type of value. -/
inductive WrongType where
  | wrongType
  deriving DecidableEq, Repr

/-- The kind of value a key holds. -/
inductive Kind where
  | none
  | string
  | list
  | stream
  | sortedSet
  deriving DecidableEq, Repr

/-! ## Lazy expiry -/

/-- Redis expires keys lazily: this one goes now that it is looked at. -/
def dropIfExpired (now : Instant) (entries : Entries) (key : Bytes) : Entries :=
  match entries[key]? with
  | some entry => if entry.hasExpired now then entries.erase key else entries
  | none => entries

/-- An entry, if its time has not passed. -/
def unexpired (now : Instant) : Option Entry → Option Entry
  | none => none
  | some entry => if entry.hasExpired now then none else some entry

theorem dropIfExpired_lookup (now : Instant) (entries : Entries) (key other : Bytes) :
    (dropIfExpired now entries key)[other]? =
      if other = key then unexpired now entries[key]? else entries[other]? := by
  unfold dropIfExpired
  by_cases same : other = key
  · subst same
    rw [if_pos rfl]
    cases held : entries[other]? with
    | none => simp [held, unexpired]
    | some entry =>
      by_cases expired : entry.hasExpired now
      · simp [expired, unexpired]
      · simp [expired, held, unexpired]
  · rw [if_neg same]
    cases entries[key]? with
    | none => rfl
    | some entry =>
      simp only
      split
      · rw [Map.lookup_erase, if_neg same]
      · rfl

/-- What looking at keys may do to the table: nothing but drop entries whose
time has passed. -/
def Lapsed (now : Instant) (before after : Entries) : Prop :=
  ∀ key : Bytes, after[key]? = before[key]? ∨
    (after[key]? = none ∧
      ∃ entry : Entry, before[key]? = some entry ∧ entry.hasExpired now)

namespace Lapsed

theorem refl (now : Instant) (entries : Entries) : Lapsed now entries entries :=
  fun _ => .inl rfl

theorem trans {now : Instant} {first second third : Entries}
    (earlier : Lapsed now first second) (later : Lapsed now second third) :
    Lapsed now first third := by
  intro key
  rcases later key with same | ⟨gone, entry, held, expired⟩
  · rw [same]
    exact earlier key
  · rcases earlier key with same' | ⟨gone', _, _, _⟩
    · exact .inr ⟨gone, entry, same' ▸ held, expired⟩
    · rw [gone'] at held
      cases held

theorem unexpired_eq {now : Instant} {before after : Entries}
    (lapsed : Lapsed now before after) (key : Bytes) :
    unexpired now after[key]? = unexpired now before[key]? := by
  rcases lapsed key with same | ⟨gone, entry, held, expired⟩
  · rw [same]
  · simp [gone, held, unexpired, expired]

end Lapsed

theorem dropIfExpired_lapsed (now : Instant) (entries : Entries) (key : Bytes) :
    Lapsed now entries (dropIfExpired now entries key) := by
  intro other
  rw [dropIfExpired_lookup]
  by_cases same : other = key
  · subst same
    rw [if_pos rfl]
    cases held : entries[other]? with
    | none => exact .inl rfl
    | some entry =>
      by_cases expired : entry.hasExpired now
      · exact .inr ⟨by simp [unexpired, expired], entry, rfl, expired⟩
      · exact .inl (by simp [unexpired, expired])
  · rw [if_neg same]
    exact .inl rfl

namespace State

/-- The entry a key holds as far as anyone looking now can tell. -/
def live (now : Instant) (state : State) (key : Bytes) : Option Entry :=
  unexpired now state.entries[key]?

theorem live_eq_some {now : Instant} {state : State} {key : Bytes} {entry : Entry}
    (held : state.live now key = some entry) :
    state.entries[key]? = some entry ∧ entry.hasExpired now = false := by
  unfold live unexpired at held
  split at held
  · cases held
  · rename_i found
    split at held
    · cases held
    · rename_i unexpired
      obtain rfl := Option.some.inj held
      exact ⟨found, by simpa using unexpired⟩

/-- The state once this key has been looked at. -/
def looked (now : Instant) (state : State) (key : Bytes) : State :=
  { state with entries := dropIfExpired now state.entries key }

@[simp] theorem looked_self (now : Instant) (state : State) (key : Bytes) :
    (state.looked now key).entries[key]? = state.live now key := by
  simp [looked, live, dropIfExpired_lookup]

@[simp] theorem looked_changes (now : Instant) (state : State) (key : Bytes) :
    (state.looked now key).changes = state.changes := rfl

theorem looked_lookup (now : Instant) (state : State) (key other : Bytes) :
    (state.looked now key).entries[other]? =
      if other = key then state.live now key else state.entries[other]? :=
  dropIfExpired_lookup now state.entries key other

/-- How the writes that make a key begin: the key is looked at, the change is
stamped, and an entry holding `fresh` is put in if there is none. -/
def opened (now : Instant) (state : State) (key : Bytes) (fresh : Data) :
    State × Entry :=
  let state := state.looked now key
  let version := state.changes + 1
  let entry := state.entries[key]?.getD (Entry.new fresh version)
  ({ state with entries := state.entries.insert key entry, changes := version }, entry)

theorem opened_entry (now : Instant) (state : State) (key : Bytes) (fresh : Data) :
    (state.opened now key fresh).2 =
      (state.live now key).getD (Entry.new fresh (state.changes + 1)) := by
  simp only [opened, looked_self]
  rfl

theorem opened_lookup (now : Instant) (state : State) (key other : Bytes)
    (fresh : Data) :
    (state.opened now key fresh).1.entries[other]? =
      if other = key then some (state.opened now key fresh).2
      else state.entries[other]? := by
  simp only [opened, Map.lookup_insert]
  split
  · rfl
  · rw [looked_lookup, if_neg ‹_›]

/-- Writes an entry through to the table. -/
def stored (state : State) (key : Bytes) (entry : Entry) : State :=
  { state with entries := state.entries.insert key entry }

theorem stored_lookup (state : State) (key other : Bytes) (entry : Entry) :
    (state.stored key entry).entries[other]? =
      if other = key then some entry else state.entries[other]? :=
  Map.lookup_insert _ _ _ _

/-- Takes a key out of the table. -/
def removed (state : State) (key : Bytes) : State :=
  { state with entries := state.entries.erase key }

theorem removed_lookup (state : State) (key other : Bytes) :
    (state.removed key).entries[other]? =
      if other = key then none else state.entries[other]? :=
  Map.lookup_erase _ _ _

/-! ## What every kind of key answers to -/

/-- Reports what a key holds. -/
def kind (now : Instant) (state : State) (key : Bytes) : State × Kind :=
  let state := state.looked now key
  (state,
    match state.entries[key]? with
    | none => .none
    | some { data := .string _, .. } => .string
    | some { data := .list _, .. } => .list
    | some { data := .stream _, .. } => .stream
    | some { data := .sortedSet _, .. } => .sortedSet)

/-- The keys asked for, once the ones whose time has passed are gone. -/
def keys (now : Instant) (state : State) (wanted : Bytes → Bool) :
    State × List Bytes :=
  let entries := state.entries.filter fun _ entry => !entry.hasExpired now
  ({ state with entries }, entries.keys.filter wanted)

/-- The versions these keys hold now. -/
def versions (now : Instant) : State → List Bytes → State × List (Option Nat)
  | state, [] => (state, [])
  | state, key :: keys =>
    let state := state.looked now key
    let rest := versions now state keys
    (rest.1, state.entries[key]?.map Entry.version :: rest.2)

/-- Whether each of these keys still holds the version it did when it was looked
at.  The first that does not settles it. -/
def unchanged (now : Instant) :
    State → List (Bytes × Option Nat) → State × Bool
  | state, [] => (state, true)
  | state, (key, version) :: watched =>
    let state := state.looked now key
    if state.entries[key]?.map Entry.version = version then
      unchanged now state watched
    else (state, false)

end State

/-- Turns an index into an offset from the start.  Negative indexes count back
from the end, and one reaching past the start clamps to the first element. -/
def resolveIndex (index : Int) (length : Nat) : Nat :=
  if 0 ≤ index then index.toNat else length - index.natAbs

end RedisServer
