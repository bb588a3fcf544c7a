import RedisServer.Store.Lists

/-!
# Sorted sets in the store
-/

namespace RedisServer

namespace State

/-- Puts these members into the sorted set at a key, and says how many of them
the set had never held. -/
def zadd (now : Instant) (state : State) (key : Bytes) (members : List (Float × Bytes)) :
    State × Except WrongType Nat :=
  let opened := state.opened now key (.sortedSet [])
  let state := opened.1
  let entry := opened.2
  match entry.data with
  | .sortedSet set =>
    let added := set.addAll members
    (state.stored key { entry with data := .sortedSet added.1, version := state.changes },
      .ok added.2)
  | _ => (state, .error .wrongType)

/-- Takes these members out of the sorted set at a key, and says how many of
them were there to take.  A set left with nothing in it goes with them. -/
def zrem (now : Instant) (state : State) (key : Bytes) (members : List Bytes) :
    State × Except WrongType Nat :=
  let state := state.looked now key
  let version := state.changes + 1
  let state := { state with changes := version }
  match state.entries[key]? with
  | none => (state, .ok 0)
  | some entry =>
    match entry.data with
    | .sortedSet set =>
      let taken := set.takeAll members
      let version := if 0 < taken.2 then version else entry.version
      let state := state.stored key { entry with data := .sortedSet taken.1, version }
      (if taken.1.isEmpty then state.removed key else state, .ok taken.2)
    | _ => (state, .error .wrongType)

/-- What asking something of the sorted set at a key comes to.  A key holding
nothing answers as an empty set would. -/
def asked {α : Type} (now : Instant) (state : State) (key : Bytes)
    (question : SortedSet Float → α) : State × Except WrongType α :=
  let state := state.looked now key
  (state,
    match state.entries[key]? with
    | none => .ok (question [])
    | some { data := .sortedSet set, .. } => .ok (question set)
    | some _ => .error .wrongType)

/-- Where a member falls in the sorted set at a key. -/
def zrank (now : Instant) (state : State) (key member : Bytes) :
    State × Except WrongType (Option Nat) :=
  state.asked now key fun set => set.at member

/-- Every member of the sorted set at a key, with its score, in order. -/
def zmembers (now : Instant) (state : State) (key : Bytes) :
    State × Except WrongType (List (Bytes × Float)) :=
  state.asked now key fun set => set.map fun member => (member.name, member.score)

/-- The score a member has in the sorted set at a key. -/
def zscore (now : Instant) (state : State) (key member : Bytes) :
    State × Except WrongType (Option Float) :=
  state.asked now key fun set => set.score member

/-- How many members the sorted set at a key holds. -/
def zcard (now : Instant) (state : State) (key : Bytes) : State × Except WrongType Nat :=
  state.asked now key List.length

/-- The members of the sorted set at a key between two places, both included. -/
def zrange (now : Instant) (state : State) (key : Bytes) (start stop : Int) :
    State × Except WrongType (List Bytes) :=
  state.asked now key fun set => (window start stop set).map Member.name

end State

end RedisServer
