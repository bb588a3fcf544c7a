import RedisServer.Store.Call

/-!
# What the store is for

Seen from outside, the store is a keyspace: each key holds a cell or nothing, and
a method that concerns one key acts on its cell.  There are no stamps here, no
lazy expiry and no queues.  `KeyOp.act` says what each method makes of the cell it
finds and what it answers; the theorems relate the store to it.
-/

namespace RedisServer

/-- What a key holds, and when it lapses. -/
structure Cell where
  data : Data
  expiresAt : Option Instant
  deriving DecidableEq

def Entry.cell (entry : Entry) : Cell := ⟨entry.data, entry.expiresAt⟩

/-- The deadline a span of time leaves a key with.  The clock may not be able to
stand for it. -/
def deadline (now : Instant) : Option Duration → Option (Option Instant)
  | none => some none
  | some delay => (instantAdd now delay).map some

namespace Cell

/-- The kind of value a cell is. -/
def kind : Option Cell → Kind
  | none => .none
  | some ⟨.string _, _⟩ => .string
  | some ⟨.list _, _⟩ => .list
  | some ⟨.stream _, _⟩ => .stream
  | some ⟨.sortedSet _, _⟩ => .sortedSet

def get : Option Cell → Except WrongType (Option Bytes)
  | none => .ok none
  | some ⟨.string value, _⟩ => .ok (some value)
  | some _ => .error .wrongType

/-- The list a cell is, an absent one being empty. -/
def list : Option Cell → Except WrongType (List Bytes)
  | none => .ok []
  | some ⟨.list list, _⟩ => .ok list
  | some _ => .error .wrongType

/-- The stream a cell is, an absent one being empty. -/
def stream : Option Cell → Except WrongType (List StreamEntry)
  | none => .ok []
  | some ⟨.stream stream, _⟩ => .ok stream
  | some _ => .error .wrongType

/-- The sorted set a cell is, an absent one being empty. -/
def sortedSet : Option Cell → Except WrongType (SortedSet Float)
  | none => .ok []
  | some ⟨.sortedSet set, _⟩ => .ok set
  | some _ => .error .wrongType

/-- Counts up from what a cell holds. -/
def increment : Option Cell → Option Cell × Except IncrementError Int
  | none => (some ⟨.string (utf8 (toString (1 : Int))), none⟩, .ok 1)
  | some ⟨.string value, expiresAt⟩ =>
    match asNumber value with
    | none => (some ⟨.string value, expiresAt⟩, .error .notAnInteger)
    | some number =>
      if i64Max < number + 1 then (some ⟨.string value, expiresAt⟩, .error .overflow)
      else (some ⟨.string (utf8 (toString (number + 1))), expiresAt⟩, .ok (number + 1))
  | some cell => (some cell, .error .wrongType)

def push (elements : List Bytes) (side : Side) :
    Option Cell → Option Cell × Except WrongType Nat
  | none =>
    (some ⟨.list (pushOnto side elements []), none⟩,
      .ok (pushOnto side elements []).length)
  | some ⟨.list list, expiresAt⟩ =>
    (some ⟨.list (pushOnto side elements list), expiresAt⟩,
      .ok (pushOnto side elements list).length)
  | some cell => (some cell, .error .wrongType)

def lpop (count : Nat) : Option Cell → Option Cell × Except WrongType (List Bytes)
  | none => (none, .ok [])
  | some ⟨.list list, expiresAt⟩ =>
    (if (list.drop count).isEmpty then none
      else some ⟨.list (list.drop count), expiresAt⟩,
      .ok (list.take count))
  | some cell => (some cell, .error .wrongType)

/-- The stream once an entry has been appended, if the id asked for is one it
may be appended under. -/
def append (unix : UInt64) (requested : RequestedId) (fields : List (Bytes × Bytes))
    (stream : List StreamEntry) : Except XaddError (EntryId × List StreamEntry) :=
  let top := stream.getLast?.map StreamEntry.id
  match resolve unix requested top with
  | .error error => .error error
  | .ok id =>
    if top.any fun top => id ≤ top then .error .notAboveTop
    else .ok (id, stream ++ [⟨id, fields⟩])

def xadd (unix : UInt64) (requested : RequestedId) (fields : List (Bytes × Bytes))
    (cell : Option Cell) : Option Cell × Except XaddError EntryId :=
  if State.xadd.belowZero requested then (cell, .error .notAboveZero)
  else
    match cell with
    | none =>
      match append unix requested fields [] with
      | .error error => (cell, .error error)
      | .ok (id, stream) => (some ⟨.stream stream, none⟩, .ok id)
    | some ⟨.stream stream, expiresAt⟩ =>
      match append unix requested fields stream with
      | .error error => (cell, .error error)
      | .ok (id, stream) => (some ⟨.stream stream, expiresAt⟩, .ok id)
    | some _ => (cell, .error .wrongType)

/-- The part of a stream between two ids.  `none` is a slice that ends before it
starts. -/
def between (start stop : EntryId) (stream : List StreamEntry) :
    Option (List StreamEntry) :=
  let first := partitionPoint (fun entry => entry.id < start) stream
  let last := partitionPoint (fun entry => entry.id ≤ stop) stream
  if last < first then none else some ((stream.drop first).take (last - first))

def zadd (members : List (Float × Bytes)) :
    Option Cell → Option Cell × Except WrongType Nat
  | none =>
    (some ⟨.sortedSet (SortedSet.addAll [] members).1, none⟩,
      .ok (SortedSet.addAll [] members).2)
  | some ⟨.sortedSet set, expiresAt⟩ =>
    (some ⟨.sortedSet (set.addAll members).1, expiresAt⟩, .ok (set.addAll members).2)
  | some cell => (some cell, .error .wrongType)

def zrem (members : List Bytes) : Option Cell → Option Cell × Except WrongType Nat
  | none => (none, .ok 0)
  | some ⟨.sortedSet set, expiresAt⟩ =>
    (if (set.takeAll members).1.isEmpty then none
      else some ⟨.sortedSet (set.takeAll members).1, expiresAt⟩,
      .ok (set.takeAll members).2)
  | some cell => (some cell, .error .wrongType)

end Cell

namespace KeyOp

/-- What a method makes of the cell at its key, and what it answers.  `none` is
a panic. -/
def act (clock : Clock) : (op : KeyOp) → Option Cell → Option (Option Cell × op.Reply)
  | .kind, cell => some (cell, Cell.kind cell)
  | .set value expiresIn, _ =>
    (deadline clock.now expiresIn).map fun expiresAt =>
      (some ⟨.string value, expiresAt⟩, ())
  | .get, cell => some (cell, Cell.get cell)
  | .increment, cell => some (Cell.increment cell)
  | .push elements side, cell => some (Cell.push elements side cell)
  | .lpop count, cell => some (Cell.lpop count cell)
  | .lrange start stop, cell => some (cell, (Cell.list cell).map (window start stop))
  | .llen, cell => some (cell, (Cell.list cell).map List.length)
  | .xadd requested fields, cell => some (Cell.xadd clock.unix requested fields cell)
  | .xrange start stop, cell =>
    match Cell.stream cell with
    | .error error => some (cell, .error error)
    | .ok stream =>
      (Cell.between start stop stream).map fun entries => (cell, .ok entries)
  | .zadd members, cell => some (Cell.zadd members cell)
  | .zrank member, cell => some (cell, (Cell.sortedSet cell).map fun set => set.at member)
  | .zrem members, cell => some (Cell.zrem members cell)
  | .zmembers, cell =>
    some (cell, (Cell.sortedSet cell).map
      (List.map fun member => (member.name, member.score)))
  | .zscore member, cell =>
    some (cell, (Cell.sortedSet cell).map fun set => set.score member)
  | .zcard, cell => some (cell, (Cell.sortedSet cell).map List.length)
  | .zrange start stop, cell =>
    some (cell, (Cell.sortedSet cell).map fun set =>
      (window start stop set).map Member.name)

/-- Whether a method may change its key at all. -/
def writes : KeyOp → Bool
  | .set _ _ | .increment | .push _ _ | .lpop _ | .xadd _ _ | .zadd _ | .zrem _ => true
  | _ => false

/-- Whether a method changed its key, by what it answered. -/
def wrote : (op : KeyOp) → op.Reply → Bool
  | .set _ _, _ => true
  | .increment, .ok _ => true
  | .push _ _, .ok _ => true
  | .lpop _, .ok taken => !taken.isEmpty
  | .xadd _ _, .ok _ => true
  | .zadd _, .ok _ => true
  | .zrem _, .ok taken => 0 < taken
  | _, _ => false

/-- A method that only looks leaves the cell as it is. -/
theorem act_of_looks {clock : Clock} {op : KeyOp} (looks : op.writes = false)
    {cell cell' : Option Cell} {reply : op.Reply}
    (acted : op.act clock cell = some (cell', reply)) : cell' = cell := by
  cases op with
  | xrange start stop =>
    simp only [act] at acted
    split at acted
    · simp only [Option.some.injEq, Prod.mk.injEq] at acted
      exact acted.1.symm
    · simp only [Option.map_eq_some_iff, Prod.mk.injEq] at acted
      obtain ⟨-, -, rfl, -⟩ := acted
      rfl
  | set | increment | push | lpop | xadd | zadd | zrem => cases looks
  | _ =>
    simp only [act, Option.some.injEq, Prod.mk.injEq] at acted
    exact acted.1.symm

theorem wrote_of_looks {op : KeyOp} (looks : op.writes = false) (reply : op.Reply) :
    op.wrote reply = false := by
  cases op with
  | set | increment | push | lpop | xadd | zadd | zrem => cases looks
  | _ => rfl

end KeyOp

/-- The entry a cell is held in: stamped anew if it was written, and as it was
otherwise. -/
def stamp (version : Nat) (wrote : Bool) (old : Option Entry) (cell : Option Cell) :
    Option Entry :=
  cell.map fun cell =>
    ⟨cell.data, cell.expiresAt,
      if wrote then version else (old.map Entry.version).getD version⟩

end RedisServer
