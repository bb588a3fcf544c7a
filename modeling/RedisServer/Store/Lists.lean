import RedisServer.Store.State

/-!
# Lists in the store

A blocking pop that finds no list leaves a one-shot channel in the queue of its
key.  A push hands what it can to those waiting, the longest waiting first, and
a client that has given up in the meantime leaves its element for the next.
-/

namespace RedisServer

/-- The end of a list a command works from. -/
inductive Side where
  | left
  | right
  deriving DecidableEq, Repr

/-- The outcome of a blocking pop: an element, or a place in the queue. -/
inductive Blocked where
  | ready (element : Bytes)
  | waiting (receiver : Nat)
  deriving DecidableEq, Repr

/-- Takes the first element of the list at a key, and the key with the last
one. -/
def popFirst (entries : Entries) (key : Bytes) (version : Nat) :
    Option (Bytes × Entries) :=
  match entries[key]? with
  | some { data := .list (element :: elements), expiresAt, .. } =>
    some (element,
      if elements.isEmpty then entries.erase key
      else entries.insert key ⟨.list elements, expiresAt, version⟩)
  | _ => none

/-- Puts an element back on the front of the list at a key. -/
def pushFirst (entries : Entries) (key element : Bytes) (version : Nat) : Entries :=
  let entry := entries[key]?.getD (Entry.new (.list []) version)
  match entry.data with
  | .list elements =>
    entries.insert key { entry with data := .list (element :: elements), version }
  | _ => entries.insert key entry

/-- The elements of a list once these have been pushed onto it.  Pushed on the
left, each lands in front of the one before it. -/
def pushOnto (side : Side) (elements list : List Bytes) : List Bytes :=
  match side with
  | .right => list ++ elements
  | .left => elements.foldl (fun list element => element :: list) list

/-- The elements between two offsets, both included, drawn in to the list. -/
def window {α : Type} (start stop : Int) (elements : List α) : List α :=
  let start := resolveIndex start elements.length
  let stop := resolveIndex stop elements.length
  if stop < start ∨ elements.length ≤ start then []
  else
    let stop := min stop (elements.length - 1)
    (elements.drop start).take (stop + 1 - start)

namespace State

/-- Serves the clients queued on a key from the front, as long as there is an
element to serve.  `queue` is what is left of the queue. -/
def serve (key : Bytes) (version : Nat) : List Nat → State → State
  | [], state => { state with waiters := state.waiters.erase key }
  | waiter :: queue, state =>
    match popFirst state.entries key version with
    | none => { state with waiters := state.waiters.insert key (waiter :: queue) }
    | some (element, entries) =>
      if state.oneshots[waiter]? = some .waiting then
        serve key version queue
          { state with
            entries
            oneshots := state.oneshots.insert waiter (.handed element) }
      else
        -- the receiver is gone, and its element stays for the next in line
        serve key version queue
          { state with entries := pushFirst entries key element version }

/-- Hands the elements at a key to the clients blocked on it. -/
def wakeWaiters (state : State) (key : Bytes) (version : Nat) : State :=
  match state.waiters[key]? with
  | none => state
  | some queue => state.serve key version queue

/-- Adds to the list at a key, and answers with the length it had before anyone
waiting was served. -/
def push (now : Instant) (state : State) (key : Bytes) (elements : List Bytes)
    (side : Side) : State × Except WrongType Nat :=
  let opened := state.opened now key (.list [])
  let state := opened.1
  let entry := opened.2
  match entry.data with
  | .list list =>
    let list := pushOnto side elements list
    let entry := { entry with data := .list list, version := state.changes }
    ((state.stored key entry).wakeWaiters key state.changes, .ok list.length)
  | _ => (state, .error .wrongType)

/-- Removes up to `count` elements from the front of the list at a key. -/
def lpop (now : Instant) (state : State) (key : Bytes) (count : Nat) :
    State × Except WrongType (List Bytes) :=
  let state := state.looked now key
  let version := state.changes + 1
  let state := { state with changes := version }
  match state.entries[key]? with
  | none => (state, .ok [])
  | some entry =>
    match entry.data with
    | .list list =>
      let taken := list.take count
      let list := list.drop count
      let version := if !taken.isEmpty then version else entry.version
      let state := state.stored key { entry with data := .list list, version }
      (if list.isEmpty then state.removed key else state, .ok taken)
    | _ => (state, .error .wrongType)

/-- Takes the first element of the list at a key, or puts the caller at the back
of the queue for one.  `none` is the panic of the code on an empty list. -/
def blpop (now : Instant) (state : State) (key : Bytes) :
    Option (State × Except WrongType Blocked) :=
  let state := state.looked now key
  match state.entries[key]? with
  | none =>
    let queue := state.waiters[key]?.getD []
    let queue := queue.filter fun waiter => state.oneshots[waiter]? ≠ some .closed
    let receiver := state.handles
    some
      ({ state with
          waiters := state.waiters.insert key (queue ++ [receiver])
          oneshots := state.oneshots.insert receiver .waiting
          handles := receiver + 1 },
        .ok (.waiting receiver))
  | some { data := .list _, .. } =>
    let version := state.changes + 1
    (popFirst state.entries key version).map fun (element, entries) =>
      ({ state with entries, changes := version }, .ok (.ready element))
  | some _ => some (state, .error .wrongType)

def lrange (now : Instant) (state : State) (key : Bytes) (start stop : Int) :
    State × Except WrongType (List Bytes) :=
  let state := state.looked now key
  (state,
    match state.entries[key]? with
    | none => .ok []
    | some { data := .list list, .. } => .ok (window start stop list)
    | some _ => .error .wrongType)

def llen (now : Instant) (state : State) (key : Bytes) :
    State × Except WrongType Nat :=
  let state := state.looked now key
  (state,
    match state.entries[key]? with
    | none => .ok 0
    | some { data := .list list, .. } => .ok list.length
    | some _ => .error .wrongType)

/-- A waiting client is handed what it waits for, or has given up.  The end of
the channel left in the queue finds out when something is next sent on it. -/
def giveUp (state : State) (receiver : Nat) : State :=
  { state with oneshots := state.oneshots.insert receiver .closed }

end State

end RedisServer
