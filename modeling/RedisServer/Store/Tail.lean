import RedisServer.Lib.Tail
import RedisServer.Store.Watchers
import RedisServer.Store.Windows

/-!
# Reading streams from an id on

A stream is a log whose marks are its ids.  At a key that nothing but `XADD` writes to, it
only ever grows at its end; a read finds what it holds past the id the read was given, and
an id left open is the one the stream ends at.
-/

namespace RedisServer

variable {before after : State} {now : Instant} {key : Bytes} {reads : List (Bytes × EntryId)}

/-- The entries of a stream past an id. -/
abbrev past (after : EntryId) (stream : List StreamEntry) : List StreamEntry :=
  Tail.past StreamEntry.id after stream

/-- The id a stream ends at. -/
def topOf (stream : List StreamEntry) : EntryId :=
  (stream.getLast?.map StreamEntry.id).getD .zero

/-- What a read of several streams found at a key. -/
def foundAt (key : Bytes) (streams : List (Bytes × List StreamEntry)) : List StreamEntry :=
  (streams.filter fun stream => stream.1 = key).flatMap Prod.snd

/-- The streams a blocking read found something in. -/
def StreamRead.streams : StreamRead → List (Bytes × List StreamEntry)
  | .ready streams => streams
  | .waiting _ => []

theorem foundAt_cons (key name : Bytes) (entries : List StreamEntry)
    (streams : List (Bytes × List StreamEntry)) :
    foundAt key ((name, entries) :: streams) =
      (if name = key then entries else []) ++ foundAt key streams := by
  by_cases same : name = key <;> simp [foundAt, same]

/-- Whether a call is an `XADD`. -/
def StoreCall.isXadd : StoreCall → Bool
  | .on _ (.xadd _ _) => true
  | _ => false

theorem StoreCall.xadd_of_wrote {call : StoreCall} {reply : call.Reply}
    (isXadd : call.isXadd = true) (wrote : call.wrote key reply = true) :
    ∃ requested fields, call = .on key (.xadd requested fields) := by
  cases call with
  | on target op =>
    cases op with
    | xadd requested fields =>
      simp only [StoreCall.wrote, Bool.and_eq_true, decide_eq_true_eq] at wrote
      exact ⟨requested, fields, by rw [wrote.1]⟩
    | _ => cases isXadd
  | _ => cases isXadd

namespace State

theorem Proper.streamOf_ordered {state : State} (proper : state.Proper) (key : Bytes) :
    Tail.Ordered StreamEntry.id (state.streamOf key) := by
  rw [streamOf]
  cases held : state.entries[key]? with
  | none => exact .nil
  | some entry =>
    have isProper := (proper.cells key entry held).data
    obtain ⟨data, expiresAt, version⟩ := entry
    cases data with
    | stream entries => exact isProper.2.1
    | _ => exact .nil

/-! ## What a stream turns into -/

/-- Only strings lapse, so a stream is not lost to its time. -/
theorem streamOf_of_lapsed (proper : before.Proper)
    (kept : after.entries[key]? = before.entries[key]? ∨
      (after.entries[key]? = none ∧
        ∃ entry : Entry, before.entries[key]? = some entry ∧ entry.hasExpired now)) :
    after.streamOf key = before.streamOf key := by
  rcases kept with same | ⟨gone, entry, held, expired⟩
  · rw [streamOf, same, streamOf]
  · have dated : entry.cell.expiresAt.isSome := by
      cases isDated : entry.expiresAt with
      | none => simp [Entry.hasExpired, isDated] at expired
      | some moment => simp [Entry.cell, isDated]
    have isString := (proper.cells key entry held).undated dated
    rw [streamOf, gone, streamOf, held]
    obtain ⟨data, expiresAt, version⟩ := entry
    cases data with
    | string value => rfl
    | _ => cases isString

theorem Drops.proper (drops : Drops now before after) (proper : before.Proper) : after.Proper :=
  proper.of_touched drops.looks.changes.ge fun key => ⟨false, drops.looks.touched key⟩

theorem Drops.streamOf (proper : before.Proper) (drops : Drops now before after) (key : Bytes) :
    after.streamOf key = before.streamOf key :=
  streamOf_of_lapsed proper (drops.looks.entries key)

/-- Appending an entry puts it at the end. -/
theorem xadd_streamOf {clock : Clock} (proper : before.Proper) {requested : RequestedId}
    {fields : List (Bytes × Bytes)} {id : EntryId}
    (performed : before.perform clock (.on key (.xadd requested fields)) = some (after, .ok id)) :
    after.streamOf key = before.streamOf key ++ [⟨id, fields⟩] := by
  have acts : Acts clock key (.xadd requested fields) before after (.ok id) :=
    performOn_acts (fun _ _ isPush => by cases isPush) performed
  have live :
      Cell.entriesOf ((before.live clock.now key).map Entry.cell) = before.streamOf key := by
    rw [← (looked_drops clock.now before key).streamOf proper key, State.streamOf, looked_self]
  obtain ⟨cell, acted, stored | ⟨-, unwritten, -⟩⟩ := acts.cell
  · rw [State.streamOf, stored, contents_stamp, ← live]
    simp only [KeyOp.act, Option.some.injEq, Cell.xadd] at acted
    split at acted
    · cases acted
    · split at acted
      · split at acted
        · cases acted
        · rename_i isNone _ _ _ appended
          cases acted
          rw [(Cell.append_eq_ok appended).2.2, isNone]
          rfl
      · split at acted
        · cases acted
        · rename_i isStream _ _ _ appended
          cases acted
          rw [(Cell.append_eq_ok appended).2.2, isStream]
          rfl
      · cases acted
  · cases unwritten

/-- A stream that nothing but `XADD` writes to only grows. -/
theorem streamOf_grows {clock : Clock} {call : StoreCall} {reply : call.Reply}
    (proper : before.Proper) (called : call.Proper)
    (performed : before.perform clock call = some (after, reply))
    (adds : call.wrote key reply = true → call.isXadd = true) :
    before.streamOf key <+: after.streamOf key := by
  have touched := (perform_touched proper called performed key).1
  cases wrote : call.wrote key reply with
  | false =>
    rw [wrote] at touched
    cases touched with
    | left kept => rw [streamOf_of_lapsed proper kept]
  | true =>
    obtain ⟨requested, fields, rfl⟩ := StoreCall.xadd_of_wrote (adds wrote) wrote
    cases reply with
    | error error => simp [StoreCall.wrote, KeyOp.wrote] at wrote
    | ok id =>
      rw [xadd_streamOf proper performed]
      exact List.prefix_append _ _

/-! ## What a read finds -/

theorem newer_eq_past {stream : List StreamEntry} (ordered : Tail.Ordered StreamEntry.id stream)
    (after : EntryId) :
    stream.drop (partitionPoint (fun entry => entry.id ≤ after) stream) = past after stream := by
  rw [drop_partitionPoint, dropWhile_eq_filter (Cell.front_upTo ordered after), past, Tail.past]
  congr 1
  funext entry
  simp [← not_le]

/-- Each stream is read past the id given for it. -/
theorem xread_foundAt (proper : before.Proper) {streams : List (Bytes × List StreamEntry)}
    (found : before.xread now reads = (after, .ok streams)) (key : Bytes) :
    foundAt key streams =
      (reads.filter fun read => read.1 = key).flatMap fun read =>
        past read.2 (before.streamOf key) := by
  induction reads generalizing before streams with
  | nil =>
    cases found
    rfl
  | cons read reads ih =>
    obtain ⟨target, id⟩ := read
    have first := streamAt_drops now before target
    simp only [xread] at found
    cases looked : before.streamAt now target with
    | mk next held =>
      rw [looked] at found first
      cases held with
      | error error => cases found
      | ok stream =>
        simp only at found
        have properNext : next.Proper := first.proper proper
        have sameStream := first.streamOf proper
        cases others : next.xread now reads with
        | mk last rest =>
          rw [others] at found
          cases rest with
          | error error => cases found
          | ok rest =>
            simp only [Prod.mk.injEq, Except.ok.injEq] at found
            obtain ⟨rfl, rfl⟩ := found
            have later := ih properNext others
            have newer : (stream.getD []).drop (partitionPoint
                (fun entry => entry.id ≤ id) (stream.getD [])) =
                past id (before.streamOf target) := by
              rw [← streamAt_streamOf looked, newer_eq_past (properNext.streamOf_ordered target),
                sameStream]
            have isFirst : foundAt key
                (if (past id (before.streamOf target)).isEmpty then rest
                  else (target, past id (before.streamOf target)) :: rest) =
                (if target = key then past id (before.streamOf target) else []) ++
                  foundAt key rest := by
              split
              · rename_i isNone
                simp [List.isEmpty_iff.mp isNone]
              · exact foundAt_cons ..
            rw [newer, isFirst, later, sameStream]
            by_cases same : target = key <;> simp [same]

/-- A read that would wait finds what one that would not finds. -/
theorem xreadOrWatch_foundAt (proper : before.Proper) {found : StreamRead}
    (read : before.xreadOrWatch now reads = (after, .ok found)) (key : Bytes) :
    foundAt key found.streams =
      (reads.filter fun read => read.1 = key).flatMap fun read =>
        past read.2 (before.streamOf key) := by
  rw [xreadOrWatch] at read
  cases looked : before.xread now reads with
  | mk next streams =>
    rw [looked] at read
    rcases streams with error | _ | ⟨stream, streams⟩
    · cases read
    · cases read
      exact xread_foundAt proper looked key
    · cases read
      exact xread_foundAt proper looked key

/-- An id left open is the one the stream ends at. -/
theorem resolveReads_settled (proper : before.Proper) {pending : List (Bytes × Option EntryId)}
    (resolved : before.resolveReads now pending = (after, .ok reads)) :
    reads = pending.map fun read => (read.1, read.2.getD (topOf (before.streamOf read.1))) := by
  induction pending generalizing before reads with
  | nil =>
    cases resolved
    rfl
  | cons read pending ih =>
    obtain ⟨target, _ | id⟩ := read
    · have first := streamAt_drops now before target
      simp only [resolveReads] at resolved
      cases looked : before.streamAt now target with
      | mk next held =>
        rw [looked] at resolved first
        cases held with
        | error error => cases resolved
        | ok stream =>
          have sameStream := first.streamOf proper
          simp only at resolved
          cases others : next.resolveReads now pending with
          | mk last rest =>
            rw [others] at resolved
            cases rest with
            | error error => cases resolved
            | ok rest =>
              cases resolved
              have isTop : ((stream.bind List.getLast?).map StreamEntry.id).getD .zero =
                  topOf (before.streamOf target) := by
                rw [← sameStream, streamAt_streamOf looked, topOf]
                cases stream <;> rfl
              rw [ih (first.proper proper) others, isTop]
              simp only [sameStream, List.map_cons, Option.getD_none]
    · simp only [resolveReads] at resolved
      cases others : before.resolveReads now pending with
      | mk last rest =>
        rw [others] at resolved
        cases rest with
        | error error => cases resolved
        | ok rest =>
          cases resolved
          rw [ih proper others]
          rfl

end State

end RedisServer
