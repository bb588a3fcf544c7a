import RedisServer.Commands.Streams
import RedisServer.Store.Windows

/-!
# What `XRANGE` answers

A bound of `XRANGE` is one of the two ends, a whole millisecond or one id.  The command
answers with the entries the two bounds let through, unless they are given the wrong way
round with an entry between them, which ends the command in a panic.
-/

namespace RedisServer.Streams

/-- What a bound stands for. -/
inductive Bound where
  | bottom
  | top
  | millisecond (milliseconds : UInt64)
  | exactly (id : EntryId)
  deriving DecidableEq, Repr

namespace Bound

/-- Whether an id is at or past a bound. -/
def startsBy (id : EntryId) : Bound → Prop
  | .bottom => True
  | .top => EntryId.max ≤ id
  | .millisecond milliseconds => milliseconds ≤ id.milliseconds
  | .exactly bound => bound ≤ id

/-- Whether an id is at or before a bound. -/
def stopsBy (id : EntryId) : Bound → Prop
  | .bottom => id ≤ EntryId.zero
  | .top => True
  | .millisecond milliseconds => id.milliseconds ≤ milliseconds
  | .exactly bound => id ≤ bound

instance (id : EntryId) : DecidablePred (startsBy id)
  | .bottom => inferInstanceAs (Decidable True)
  | .top => inferInstanceAs (Decidable (_ ≤ _))
  | .millisecond _ => inferInstanceAs (Decidable (_ ≤ _))
  | .exactly _ => inferInstanceAs (Decidable (_ ≤ _))

instance (id : EntryId) : DecidablePred (stopsBy id)
  | .bottom => inferInstanceAs (Decidable (_ ≤ _))
  | .top => inferInstanceAs (Decidable True)
  | .millisecond _ => inferInstanceAs (Decidable (_ ≤ _))
  | .exactly _ => inferInstanceAs (Decidable (_ ≤ _))

/-- The bound a text spells: `-`, `+`, a number, or two numbers joined by a dash. -/
def read (bound : Bytes) : Option Bound :=
  match text bound with
  | none => none
  | some "-" => some .bottom
  | some "+" => some .top
  | some spelled =>
    match splitOnce '-' spelled with
    | none => (parseHalf spelled).map .millisecond
    | some (milliseconds, sequence) =>
      match parseHalf milliseconds, parseHalf sequence with
      | some milliseconds, some sequence => some (.exactly ⟨milliseconds, sequence⟩)
      | _, _ => none

/-- The id a bound stands for, given the sequence number to fill in. -/
def filled (missingSequence : UInt64) : Bound → EntryId
  | .bottom => EntryId.zero
  | .top => EntryId.max
  | .millisecond milliseconds => ⟨milliseconds, missingSequence⟩
  | .exactly id => id

theorem parseBound_eq (bound : Bytes) (missingSequence : UInt64) :
    parseBound bound missingSequence = (read bound).map (filled missingSequence) := by
  unfold parseBound read
  rcases text bound with _ | spelled
  · rfl
  · by_cases bottom : spelled = "-"
    · subst bottom
      rfl
    · by_cases top : spelled = "+"
      · subst top
        rfl
      · simp only [parseId]
        rcases splitOnce '-' spelled with _ | ⟨milliseconds, sequence⟩
        · simp only [Option.map_map]
          rfl
        · dsimp only
          rcases parseHalf milliseconds with _ | milliseconds <;>
            rcases parseHalf sequence with _ | sequence <;> rfl

theorem le_max (id : EntryId) : id ≤ EntryId.max := by
  have first := id.milliseconds.toNat_lt
  have second := id.sequence.toNat_lt
  rw [EntryId.le_iff_rank, EntryId.rank, EntryId.rank]
  have top : EntryId.max.milliseconds.toNat = 2 ^ 64 - 1 := rfl
  have top' : EntryId.max.sequence.toNat = 2 ^ 64 - 1 := rfl
  omega

theorem zero_le (id : EntryId) : EntryId.zero ≤ id := by
  rw [EntryId.le_iff_rank, EntryId.rank]
  exact Nat.zero_le _

theorem filled_le_iff (bound : Bound) (id : EntryId) : bound.filled 0 ≤ id ↔ bound.startsBy id := by
  cases bound with
  | bottom => exact iff_of_true (zero_le id) True.intro
  | top => rfl
  | exactly bound => rfl
  | millisecond milliseconds =>
    have fits := id.sequence.toNat_lt
    have zero : (0 : UInt64).toNat = 0 := rfl
    simp only [filled, startsBy, EntryId.le_iff_rank, EntryId.rank, UInt64.le_iff_toNat_le, zero]
    omega

theorem le_filled_iff (bound : Bound) (id : EntryId) :
    id ≤ bound.filled (UInt64.ofNat u64Max) ↔ bound.stopsBy id := by
  cases bound with
  | bottom => rfl
  | top => exact iff_of_true (le_max id) True.intro
  | exactly bound => rfl
  | millisecond milliseconds =>
    have fits := id.sequence.toNat_lt
    have top : (UInt64.ofNat u64Max).toNat = 2 ^ 64 - 1 := rfl
    simp only [filled, stopsBy, EntryId.le_iff_rank, EntryId.rank, UInt64.le_iff_toNat_le, top]
    omega

end Bound

/-- The entries two bounds let through. -/
def letThrough (start stop : Bound) (stream : List StreamEntry) : List StreamEntry :=
  stream.filter fun entry => start.startsBy entry.id ∧ stop.stopsBy entry.id

theorem inRange_filled (start stop : Bound) (stream : List StreamEntry) :
    Cell.inRange (start.filled 0) (stop.filled (UInt64.ofNat u64Max)) stream =
      letThrough start stop stream := by
  simp only [Cell.inRange, letThrough, Bound.filled_le_iff, Bound.le_filled_iff]

end RedisServer.Streams

namespace RedisServer

namespace State

theorem Proper.ordered {state : State} (proper : state.Proper) {now : Instant} {key : Bytes}
    {stream : List StreamEntry}
    (held : Cell.stream ((state.live now key).map Entry.cell) = .ok stream) :
    Cell.Ordered stream := by
  cases found : state.live now key with
  | none =>
    rw [found] at held
    cases held
    exact .nil
  | some entry =>
    have cell := (proper.cells key entry (live_eq_some found).1).data
    obtain ⟨_ | _ | entries | _, expiresAt, version⟩ := entry <;> rw [found] at held <;> cases held
    exact cell.2.1

/-- What `Store::xrange` comes to on a key that holds a stream or nothing. -/
theorem xrange_eq {state : State} (proper : state.Proper) {now : Instant} {key : Bytes}
    {stream : List StreamEntry}
    (held : Cell.stream ((state.live now key).map Entry.cell) = .ok stream)
    (start stop : EntryId) :
    state.xrange now key start stop =
      if ∃ entry ∈ stream, stop < entry.id ∧ entry.id < start then none
      else some (state.looked now key, .ok (Cell.inRange start stop stream)) := by
  have cut : state.xrange now key start stop =
      (Cell.between start stop stream).map fun entries => (state.looked now key, .ok entries) := by
    have looked := @streamAt_eq ⟨now, 0⟩ state key
    simp only at looked
    simp only [xrange, looked]
    cases found : state.live now key with
    | none =>
      rw [found] at held
      cases held
      rfl
    | some entry =>
      rw [found, Option.map_some] at held
      simp only [held, Except.map, Cell.between]
      split <;> rfl
  rw [cut, Cell.between_eq (proper.ordered held)]
  split <;> rfl

end State

section

variable (world : World) (supply : Nat → Env) (count : Nat) (key : Bytes)

/-- On a key that holds a stream or nothing, `XRANGE` is the filter it describes, for ids as
for bounds as they are spelled, just when no entry lies past the end of the range and
before its start. -/
theorem xrange_exact_iff (proper : world.store.Proper) (stream : List StreamEntry)
    (held : Cell.stream ((world.store.live (supply count).clock.now key).map Entry.cell) =
      .ok stream) :
    (∀ start stop : EntryId,
      (∃ after, world.store.xrange (supply count).clock.now key start stop =
          some (after, .ok (Cell.inRange start stop stream))) ↔
        ¬ ∃ entry ∈ stream, stop < entry.id ∧ entry.id < start) ∧
    ∀ (start stop : Bytes) (first last : Streams.Bound), Streams.Bound.read start = some first →
      Streams.Bound.read stop = some last →
      ((∃ after, (Streams.xrange key start stop).exec machine supply count world = .done after
            (.array ((Streams.letThrough first last stream).map Streams.encodeEntry))) ↔
        ¬ ∃ entry ∈ stream, ¬ last.stopsBy entry.id ∧ ¬ first.startsBy entry.id) := by
  have found := State.xrange_eq proper held
  refine ⟨fun start stop => ?_, fun start stop first last isFirst isLast => ?_⟩
  · rw [found]
    by_cases crossed : ∃ entry ∈ stream, stop < entry.id ∧ entry.id < start
    · rw [if_pos crossed]
      exact iff_of_false (by simp) (not_not.mpr crossed)
    · rw [if_neg crossed]
      exact iff_of_true ⟨_, rfl⟩ crossed
  · have started := Streams.Bound.parseBound_eq start 0
    have stopped := Streams.Bound.parseBound_eq stop (UInt64.ofNat u64Max)
    rw [isFirst, Option.map_some] at started
    rw [isLast, Option.map_some] at stopped
    have crosses : (∃ entry ∈ stream, last.filled (UInt64.ofNat u64Max) < entry.id ∧
        entry.id < first.filled 0) ↔
          ∃ entry ∈ stream, ¬ last.stopsBy entry.id ∧ ¬ first.startsBy entry.id := by
      simp only [← Streams.Bound.filled_le_iff, ← Streams.Bound.le_filled_iff, not_le]
    have performed := found (first.filled 0) (last.filled (UInt64.ofNat u64Max))
    rw [← crosses]
    simp only [Streams.xrange, started, stopped, ask, Program.exec_call, machine, World.perform,
      State.perform, State.performOn]
    by_cases crossed : ∃ entry ∈ stream, last.filled (UInt64.ofNat u64Max) < entry.id ∧
        entry.id < first.filled 0
    · rw [performed, if_pos crossed]
      exact iff_of_false (by simp) (not_not.mpr crossed)
    · rw [performed, if_neg crossed, Streams.inRange_filled]
      exact iff_of_true ⟨_, rfl⟩ crossed

end

/-- A store with a stream of one entry at one key. -/
def State.holdingEntry : State :=
  { entries := (∅ : Entries).insert [1] (Entry.new (.stream [⟨⟨5, 0⟩, []⟩]) 0) }

theorem State.holdingEntry_proper : State.holdingEntry.Proper := by
  have only {key : Bytes} {entry : Entry} (held : State.holdingEntry.entries[key]? = some entry) :
      entry = Entry.new (.stream [⟨⟨5, 0⟩, []⟩]) 0 := by
    simp only [State.holdingEntry, Map.lookup_insert] at held
    split at held
    · exact (Option.some.inj held).symm
    · simp at held
  refine ⟨fun key entry held => ?_, fun key entry held => ?_⟩
  · rw [only held]
    exact ⟨⟨by simp, List.pairwise_singleton _ _, by simp; decide⟩, by simp [Entry.new, Entry.cell]⟩
  · rw [only held]
    exact le_rfl

/-- `XRANGE key 5 +` finds an entry at `5-0`. -/
theorem xrange_exact_millisecond :
    ∃ after, (Streams.xrange [1] (utf8 "5") (utf8 "+")).exec machine
        (fun _ => { clock := ⟨0, 0⟩ }) 0 { store := .holdingEntry } =
      .done after (.array ((Streams.letThrough (.millisecond 5) .top [⟨⟨5, 0⟩, []⟩]).map
        Streams.encodeEntry)) :=
  ((xrange_exact_iff { store := .holdingEntry } (fun _ => { clock := ⟨0, 0⟩ }) 0 [1]
    State.holdingEntry_proper [⟨⟨5, 0⟩, []⟩] rfl).2 (utf8 "5") (utf8 "+") (.millisecond 5) .top
    (by decide +kernel) (by decide +kernel)).mpr (by decide)

/-- `XRANGE key 9 1` panics over an entry at `5-0`, where the range holds nothing. -/
theorem xrange_backwards_panics :
    State.holdingEntry.xrange 0 [1] ⟨9, 0⟩ ⟨1, 0⟩ = none ∧
      Cell.inRange ⟨9, 0⟩ ⟨1, 0⟩ [⟨⟨5, 0⟩, []⟩] = [] :=
  ⟨rfl, rfl⟩

end RedisServer
