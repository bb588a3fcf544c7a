import RedisServer.Store.State

/-!
# Streams in the store

A stream is a log: entries are only ever appended, each under an id above the
one before.  A blocking read that finds nothing new leaves a waker under every
key it reads, and whoever appends to one of them wakes all of its readers.
-/

namespace RedisServer

/-- The outcome of a blocking read: what was there, or a waker that fires once
one of the streams grows. -/
inductive StreamRead where
  | ready (streams : List (Bytes × List StreamEntry))
  | waiting (waker : Nat)

namespace State

/-- Tells every client waiting on a key that the stream has grown. -/
def wakeWatchers (state : State) (key : Bytes) : State :=
  let woken := state.watchers[key]?.getD []
  { state with
    watchers := state.watchers.erase key
    wakers := woken.foldl
      (fun wakers waker =>
        wakers.insert waker { wakers[waker]?.getD ⟨false, false⟩ with permit := true })
      state.wakers }

/-- Appends an entry to the stream at a key, and answers with the id it was
stored under. -/
def xadd (now : Instant) (unix : UInt64) (state : State) (key : Bytes)
    (requested : RequestedId) (fields : List (Bytes × Bytes)) :
    State × Except XaddError EntryId :=
  -- `0-0` is refused before the key is looked at
  if belowZero then (state, .error .notAboveZero)
  else
    let opened := state.opened now key (.stream [])
    let state := opened.1
    let entry := opened.2
    match entry.data with
    | .stream stream =>
      let top := stream.getLast?.map StreamEntry.id
      match resolve unix requested top with
      | .error error => (state, .error error)
      | .ok id =>
        if top.any fun top => id ≤ top then (state, .error .notAboveTop)
        else
          let entry :=
            { entry with data := .stream (stream ++ [⟨id, fields⟩]), version := state.changes }
          ((state.stored key entry).wakeWatchers key, .ok id)
    | _ => (state, .error .wrongType)
where
  belowZero : Bool :=
    match requested with
    | .explicit id => id ≤ EntryId.zero
    | _ => false

/-- Looks up the stream stored at a key.  An absent key is no error. -/
def streamAt (now : Instant) (state : State) (key : Bytes) :
    State × Except WrongType (Option (List StreamEntry)) :=
  let state := state.looked now key
  (state,
    match state.entries[key]? with
    | none => .ok none
    | some { data := .stream stream, .. } => .ok (some stream)
    | some _ => .error .wrongType)

/-- The entries whose ids fall between two, both included.  `none` is the panic
of the code on a slice that ends before it starts. -/
def xrange (now : Instant) (state : State) (key : Bytes) (start stop : EntryId) :
    Option (State × Except WrongType (List StreamEntry)) :=
  match state.streamAt now key with
  | (state, .error error) => some (state, .error error)
  | (state, .ok none) => some (state, .ok [])
  | (state, .ok (some stream)) =>
    let first := partitionPoint (fun entry => entry.id < start) stream
    let last := partitionPoint (fun entry => entry.id ≤ stop) stream
    if last < first then none
    else some (state, .ok ((stream.drop first).take (last - first)))

/-- Replaces the ids left open with the one each stream ends at right now. -/
def resolveReads (now : Instant) : State → List (Bytes × Option EntryId) →
    State × Except WrongType (List (Bytes × EntryId))
  | state, [] => (state, .ok [])
  | state, (key, some after) :: reads =>
    match resolveReads now state reads with
    | (state, .error error) => (state, .error error)
    | (state, .ok resolved) => (state, .ok ((key, after) :: resolved))
  | state, (key, none) :: reads =>
    match state.streamAt now key with
    | (state, .error error) => (state, .error error)
    | (state, .ok stream) =>
      let after := ((stream.bind List.getLast?).map StreamEntry.id).getD EntryId.zero
      match resolveReads now state reads with
      | (state, .error error) => (state, .error error)
      | (state, .ok resolved) => (state, .ok ((key, after) :: resolved))

/-- The entries recorded after the given id in each stream.  Streams with
nothing new are left out. -/
def xread (now : Instant) : State → List (Bytes × EntryId) →
    State × Except WrongType (List (Bytes × List StreamEntry))
  | state, [] => (state, .ok [])
  | state, (key, after) :: reads =>
    match state.streamAt now key with
    | (state, .error error) => (state, .error error)
    | (state, .ok stream) =>
      match xread now state reads with
      | (state, .error error) => (state, .error error)
      | (state, .ok streams) =>
        let newer := (stream.getD []).drop
          (partitionPoint (fun entry => entry.id ≤ after) (stream.getD []))
        (state, .ok (if newer.isEmpty then streams else (key, newer) :: streams))

/-- How many references there are to a waker: one for each place it is kept in,
and the client's own. -/
def strongCount (state : State) (watchers : Map Bytes (List Nat)) (waker : Nat) : Nat :=
  (watchers.toList.map fun kept => kept.2.count waker).sum +
    if (state.wakers[waker]?.map Waker.held).getD false then 1 else 0

/-- Leaves a waker under each of these keys, dropping the ones whose clients
have gone. -/
def watch (waker : Nat) : State → List (Bytes × EntryId) → State
  | state, [] => state
  | state, (key, _) :: reads =>
    let watching := state.watchers[key]?.getD []
    let watching := watching.filter fun other =>
      1 < state.strongCount state.watchers other
    watch waker
      { state with watchers := state.watchers.insert key (watching ++ [waker]) }
      reads

/-- The same read, except that coming back empty leaves a watcher on every
key. -/
def xreadOrWatch (now : Instant) (state : State) (reads : List (Bytes × EntryId)) :
    State × Except WrongType StreamRead :=
  match state.xread now reads with
  | (state, .error error) => (state, .error error)
  | (state, .ok (stream :: streams)) => (state, .ok (.ready (stream :: streams)))
  | (state, .ok []) =>
    let waker := state.handles
    let state :=
      { state with
        wakers := state.wakers.insert waker ⟨false, true⟩
        handles := waker + 1 }
    (state.watch waker reads, .ok (.waiting waker))

/-- A client lets go of its waker. -/
def release (state : State) (waker : Nat) : State :=
  { state with wakers := state.wakers.insert waker ⟨false, false⟩ }

end State

end RedisServer
