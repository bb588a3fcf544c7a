import RedisServer.Store.Strings
import RedisServer.Store.Streams
import RedisServer.Store.SortedSets

/-!
# The store as one machine

Every method of the store as a call with its arguments and the type of its
answer, and `State.perform`, which carries one out.  A call takes the lock for
as long as it runs, so calls are the atomic steps of everything above the store.

Most methods concern one key and nothing else; these are set apart as `KeyOp`s.
-/

namespace RedisServer

/-- A method of the store that concerns one key, with its other arguments. -/
inductive KeyOp where
  | kind
  | set (value : Bytes) (expiresIn : Option Duration)
  | get
  | increment
  | push (elements : List Bytes) (side : Side)
  | lpop (count : Nat)
  | lrange (start stop : Int)
  | llen
  | xadd (requested : RequestedId) (fields : List (Bytes × Bytes))
  | xrange (start stop : EntryId)
  | zadd (members : List (Float × Bytes))
  | zrank (member : Bytes)
  | zrem (members : List Bytes)
  | zmembers
  | zscore (member : Bytes)
  | zcard
  | zrange (start stop : Int)
  deriving DecidableEq

/-- What each of these methods answers with. -/
abbrev KeyOp.Reply : KeyOp → Type
  | .kind => Kind
  | .set _ _ => Unit
  | .get => Except WrongType (Option Bytes)
  | .increment => Except IncrementError Int
  | .push _ _ => Except WrongType Nat
  | .lpop _ => Except WrongType (List Bytes)
  | .lrange _ _ => Except WrongType (List Bytes)
  | .llen => Except WrongType Nat
  | .xadd _ _ => Except XaddError EntryId
  | .xrange _ _ => Except WrongType (List StreamEntry)
  | .zadd _ => Except WrongType Nat
  | .zrank _ => Except WrongType (Option Nat)
  | .zrem _ => Except WrongType Nat
  | .zmembers => Except WrongType (List (Bytes × Float))
  | .zscore _ => Except WrongType (Option Float)
  | .zcard => Except WrongType Nat
  | .zrange _ _ => Except WrongType (List Bytes)

/-- A method of the store with its arguments. -/
inductive StoreCall where
  | on (key : Bytes) (op : KeyOp)
  | blpop (key : Bytes)
  | keys (wanted : Bytes → Bool)
  | versions (keys : List Bytes)
  | unchanged (watched : List (Bytes × Option Nat))
  | resolveReads (reads : List (Bytes × Option EntryId))
  | xread (reads : List (Bytes × EntryId))
  | xreadOrWatch (reads : List (Bytes × EntryId))

abbrev StoreCall.Reply : StoreCall → Type
  | .on _ op => op.Reply
  | .blpop _ => Except WrongType Blocked
  | .keys _ => List Bytes
  | .versions _ => List (Option Nat)
  | .unchanged _ => Bool
  | .resolveReads _ => Except WrongType (List (Bytes × EntryId))
  | .xread _ => Except WrongType (List (Bytes × List StreamEntry))
  | .xreadOrWatch _ => Except WrongType StreamRead

/-- What the two clocks read while a call runs: the time since the machine
started, and the Unix time in milliseconds. -/
structure Clock where
  now : Instant
  unix : UInt64
  deriving DecidableEq, Repr

namespace State

/-- Carries out a method that concerns one key.  `none` is a panic. -/
def performOn (clock : Clock) (state : State) (key : Bytes) :
    (op : KeyOp) → Option (State × op.Reply)
  | .kind => some (state.kind clock.now key)
  | .set value expiresIn =>
    (state.set clock.now key value expiresIn).map fun state => (state, ())
  | .get => some (state.get clock.now key)
  | .increment => some (state.increment clock.now key)
  | .push elements side => some (state.push clock.now key elements side)
  | .lpop count => some (state.lpop clock.now key count)
  | .lrange start stop => some (state.lrange clock.now key start stop)
  | .llen => some (state.llen clock.now key)
  | .xadd requested fields => some (state.xadd clock.now clock.unix key requested fields)
  | .xrange start stop => state.xrange clock.now key start stop
  | .zadd members => some (state.zadd clock.now key members)
  | .zrank member => some (state.zrank clock.now key member)
  | .zrem members => some (state.zrem clock.now key members)
  | .zmembers => some (state.zmembers clock.now key)
  | .zscore member => some (state.zscore clock.now key member)
  | .zcard => some (state.zcard clock.now key)
  | .zrange start stop => some (state.zrange clock.now key start stop)

/-- Carries out one call.  `none` is a panic, which leaves the state as it
was. -/
def perform (clock : Clock) (state : State) :
    (call : StoreCall) → Option (State × call.Reply)
  | .on key op => state.performOn clock key op
  | .blpop key => state.blpop clock.now key
  | .keys wanted => some (state.keys clock.now wanted)
  | .versions keys => some (state.versions clock.now keys)
  | .unchanged watched => some (state.unchanged clock.now watched)
  | .resolveReads reads => some (state.resolveReads clock.now reads)
  | .xread reads => some (state.xread clock.now reads)
  | .xreadOrWatch reads => some (state.xreadOrWatch clock.now reads)

end State

end RedisServer
