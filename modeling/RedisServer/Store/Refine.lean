import RedisServer.Store.Keyspace

/-!
# The store carries out what the keyspace says

Each method that concerns one key makes of the live entry at that key what
`KeyOp.act` makes of its cell, answers what it answers, stamps what it changed
and leaves every other key alone.  A push is the one that may do more, when
clients are waiting on its key.
-/

namespace RedisServer

variable {op : KeyOp} {after : State} {reply : op.Reply}

theorem stamp_kept (version : Nat) (old : Option Entry) :
    stamp version false old (old.map Entry.cell) = old := by
  cases old <;> rfl

namespace State

/-- The state a method has left and the answer it gave, as far as the keyspace
goes.  A method refused before it looked has left everything. -/
structure Acts (clock : Clock) (key : Bytes) (op : KeyOp) (before after : State)
    (reply : op.Reply) : Prop where
  cell : ∃ cell, op.act clock ((before.live clock.now key).map Entry.cell) =
      some (cell, reply) ∧
    (after.entries[key]? =
        stamp (before.changes + 1) (op.wrote reply) (before.live clock.now key) cell ∨
      (after = before ∧ op.wrote reply = false ∧
        cell = (before.live clock.now key).map Entry.cell))
  frame : ∀ other, other ≠ key → after.entries[other]? = before.entries[other]?
  counted : before.changes ≤ after.changes
  stamped : op.wrote reply = true → after.changes = before.changes + 1

variable {clock : Clock} {state : State} {key : Bytes}

/-- A method that only looks at its key. -/
theorem acts_looked (answered : op.act clock ((state.live clock.now key).map Entry.cell) =
      some ((state.live clock.now key).map Entry.cell, reply))
    (unwritten : op.wrote reply = false) :
    Acts clock key op state (state.looked clock.now key) reply where
  cell := by
    refine ⟨_, answered, .inl ?_⟩
    rw [looked_self, unwritten, stamp_kept]
  frame other different := by rw [looked_lookup, if_neg different]
  counted := le_rfl
  stamped written := by simp [unwritten] at written

/-- A method that opens its key and leaves it as it was. -/
theorem acts_opened {fresh : Data} {entry : Entry} (held : state.live clock.now key = some entry)
    (answered : op.act clock (some entry.cell) = some (some entry.cell, reply))
    (unwritten : op.wrote reply = false) :
    Acts clock key op state (state.opened clock.now key fresh).1 reply where
  cell := by
    refine ⟨_, by rw [held]; exact answered, .inl ?_⟩
    rw [opened_lookup, if_pos rfl, opened_entry, held, unwritten]
    rfl
  frame other different := by rw [opened_lookup, if_neg different]
  counted := Nat.le_succ _
  stamped written := by simp [unwritten] at written

/-- A method that opens its key and writes to it. -/
theorem acts_stored {fresh data : Data} {expiresAt : Option Instant}
    (answered : op.act clock ((state.live clock.now key).map Entry.cell) =
      some (some ⟨data, expiresAt⟩, reply)) (written : op.wrote reply = true) :
    Acts clock key op state
      ((state.opened clock.now key fresh).1.stored key
        ⟨data, expiresAt, state.changes + 1⟩) reply where
  cell := by
    refine ⟨_, answered, .inl ?_⟩
    rw [stored_lookup, if_pos rfl, written]
    rfl
  frame other different := by
    rw [stored_lookup, if_neg different, opened_lookup, if_neg different]
  counted := Nat.le_succ _
  stamped _ := rfl

/-! ## Methods that look -/

theorem kind_acts : Acts clock key .kind state (state.kind clock.now key).1
    (state.kind clock.now key).2 := by
  have replied : (state.kind clock.now key).2 =
      Cell.kind ((state.live clock.now key).map Entry.cell) := by
    simp only [kind, looked_self]
    rcases state.live clock.now key with _ | ⟨_ | _ | _ | _, _, _⟩ <;> rfl
  rw [replied]
  exact acts_looked rfl rfl

theorem get_acts : Acts clock key .get state (state.get clock.now key).1
    (state.get clock.now key).2 := by
  have replied : (state.get clock.now key).2 =
      Cell.get ((state.live clock.now key).map Entry.cell) := by
    simp only [get, looked_self]
    rcases state.live clock.now key with _ | ⟨_ | _ | _ | _, _, _⟩ <;> rfl
  rw [replied]
  exact acts_looked rfl rfl

theorem lrange_acts (start stop : Int) :
    Acts clock key (.lrange start stop) state
      (state.lrange clock.now key start stop).1
      (state.lrange clock.now key start stop).2 := by
  have replied : (state.lrange clock.now key start stop).2 =
      (Cell.list ((state.live clock.now key).map Entry.cell)).map
        (window start stop) := by
    simp only [lrange, looked_self]
    rcases state.live clock.now key with _ | ⟨_ | _ | _ | _, _, _⟩ <;>
      simp [Cell.list, Entry.cell, Except.map, window]
  rw [replied]
  exact acts_looked rfl rfl

theorem llen_acts : Acts clock key .llen state (state.llen clock.now key).1
    (state.llen clock.now key).2 := by
  have replied : (state.llen clock.now key).2 =
      (Cell.list ((state.live clock.now key).map Entry.cell)).map List.length := by
    simp only [llen, looked_self]
    rcases state.live clock.now key with _ | ⟨_ | _ | _ | _, _, _⟩ <;> rfl
  rw [replied]
  exact acts_looked rfl rfl

/-- What asking something of a sorted set comes to. -/
theorem asked_eq {α : Type} (question : SortedSet Float → α) :
    state.asked clock.now key question =
      (state.looked clock.now key,
        (Cell.sortedSet ((state.live clock.now key).map Entry.cell)).map question) := by
  simp only [asked, looked_self]
  rcases state.live clock.now key with _ | ⟨_ | _ | _ | _, _, _⟩ <;> rfl

theorem streamAt_eq :
    state.streamAt clock.now key =
      (state.looked clock.now key,
        match state.live clock.now key with
        | none => .ok none
        | some entry => (Cell.stream (some entry.cell)).map some) := by
  simp only [streamAt, looked_self]
  rcases state.live clock.now key with _ | ⟨_ | _ | _ | _, _, _⟩ <;> rfl

/-! ## Methods that write -/

theorem set_acts (value : Bytes) (expiresIn : Option Duration)
    (performed : state.set clock.now key value expiresIn = some after) :
    Acts clock key (.set value expiresIn) state after () := by
  have put (expiresAt : Option Instant)
      (lapses : deadline clock.now expiresIn = some expiresAt) :
      Acts clock key (.set value expiresIn) state (set.put state key value expiresAt) () := by
    refine ⟨⟨some ⟨.string value, expiresAt⟩, ?_, .inl ?_⟩, ?_, Nat.le_succ _, fun _ => rfl⟩
    · simp [KeyOp.act, lapses]
    · simp [set.put, stamp, KeyOp.wrote]
    · intro other different
      simp only [set.put, Map.lookup_insert, if_neg different]
  cases expiresIn with
  | none =>
    simp only [set, Option.some.injEq] at performed
    exact performed ▸ put none rfl
  | some delay =>
    simp only [set, Option.map_eq_some_iff] at performed
    obtain ⟨moment, added, rfl⟩ := performed
    exact put (some moment) (by simp [deadline, added])

theorem increment_acts : Acts clock key .increment state
    (state.increment clock.now key).1 (state.increment clock.now key).2 := by
  have fromZero : asNumber (utf8 "0") = some 0 := by decide
  unfold increment
  cases held : state.live clock.now key with
  | none =>
    simp only [opened_entry, held, Option.getD_none, Entry.new, fromZero]
    rw [if_neg (by decide)]
    exact acts_stored (by rw [held]; rfl) rfl
  | some current =>
    simp only [opened_entry, held, Option.getD_some]
    obtain ⟨data, expiresAt, version⟩ := current
    cases data with
    | string value =>
      cases number : asNumber value with
      | none =>
        simp only [number]
        exact acts_opened held
          (by simp [KeyOp.act, Cell.increment, Entry.cell, number]) rfl
      | some number' =>
        simp only [number]
        split
        · rename_i large
          exact acts_opened held
            (by simp [KeyOp.act, Cell.increment, Entry.cell, number, large]) rfl
        · rename_i small
          exact acts_stored (by
            simp [held, KeyOp.act, Cell.increment, Entry.cell, number, small]) rfl
    | list _ | stream _ | sortedSet _ => exact acts_opened held rfl rfl

/-- A push writes to its key and then serves those waiting on it. -/
theorem push_acts (elements : List Bytes) (side : Side) :
    ∃ pushed, Acts clock key (.push elements side) state pushed
        (state.push clock.now key elements side).2 ∧
      pushed.waiters = state.waiters ∧ pushed.oneshots = state.oneshots ∧
      pushed.handles = state.handles ∧
      (state.push clock.now key elements side).1 =
        match (state.push clock.now key elements side).2 with
        | .ok _ => pushed.wakeWaiters key (state.changes + 1)
        | .error _ => pushed := by
  unfold push
  cases held : state.live clock.now key with
  | none =>
    simp only [opened_entry, held, Option.getD_none, Entry.new]
    exact ⟨_, acts_stored (by rw [held]; rfl) rfl, rfl, rfl, rfl, rfl⟩
  | some current =>
    simp only [opened_entry, held, Option.getD_some]
    obtain ⟨data, expiresAt, version⟩ := current
    cases data with
    | list list => exact ⟨_, acts_stored (by rw [held]; rfl) rfl, rfl, rfl, rfl, rfl⟩
    | string _ | stream _ | sortedSet _ => exact ⟨_, acts_opened held rfl rfl, rfl, rfl, rfl, rfl⟩

/-- A method refused before its key is looked at. -/
theorem acts_unseen (answered : op.act clock ((state.live clock.now key).map Entry.cell) =
      some ((state.live clock.now key).map Entry.cell, reply))
    (unwritten : op.wrote reply = false) :
    Acts clock key op state state reply where
  cell := ⟨_, answered, .inr ⟨rfl, unwritten, rfl⟩⟩
  frame _ _ := rfl
  counted := le_rfl
  stamped written := by simp [unwritten] at written

/-- A method that looks at its key, counts a change and leaves the key as it
was. -/
theorem acts_counted {changes : Nat} (counted : state.changes ≤ changes)
    (answered : op.act clock ((state.live clock.now key).map Entry.cell) =
      some ((state.live clock.now key).map Entry.cell, reply))
    (unwritten : op.wrote reply = false) :
    Acts clock key op state { state.looked clock.now key with changes } reply where
  cell := by
    refine ⟨_, answered, .inl ?_⟩
    rw [looked_self, unwritten, stamp_kept]
  frame other different := by rw [looked_lookup, if_neg different]
  counted := counted
  stamped written := by simp [unwritten] at written

/-- A method that takes from what its key holds, and takes the key with the last
of it. -/
theorem acts_taken (op : KeyOp) (reply : op.Reply) (data : Data) (emptied : Bool)
    {entry : Entry} (held : state.live clock.now key = some entry)
    (answered : op.act clock (some entry.cell) =
      some (if emptied then none else some ⟨data, entry.expiresAt⟩, reply)) :
    let version := if op.wrote reply then state.changes + 1 else entry.version
    let counted : State := { state.looked clock.now key with changes := state.changes + 1 }
    let stored := counted.stored key { entry with data, version }
    Acts clock key op state (if emptied then stored.removed key else stored) reply := by
  refine ⟨⟨_, by rw [held]; exact answered, .inl ?_⟩, ?_, ?_, ?_⟩
  · cases emptied with
    | true => simp [removed_lookup, stamp]
    | false =>
      simp only [Bool.false_eq_true, if_false, stored_lookup, if_true, stamp, held,
        Option.map_some, Option.getD_some]
  · intro other different
    cases emptied <;>
      simp [removed_lookup, stored_lookup, if_neg different, looked_lookup]
  · cases emptied <;> exact Nat.le_succ _
  · cases emptied <;> exact fun _ => rfl

theorem lpop_acts (count : Nat) :
    Acts clock key (.lpop count) state (state.lpop clock.now key count).1
      (state.lpop clock.now key count).2 := by
  unfold lpop
  simp only [looked_self]
  cases held : state.live clock.now key with
  | none => exact acts_counted (Nat.le_succ _) (by rw [held]; rfl) rfl
  | some current =>
    obtain ⟨data, expiresAt, version⟩ := current
    cases data with
    | list list =>
      exact acts_taken (.lpop count) (.ok (list.take count)) (.list (list.drop count))
        (list.drop count).isEmpty held rfl
    | string value => exact acts_counted (Nat.le_succ _) (by rw [held]; rfl) rfl
    | stream entries => exact acts_counted (Nat.le_succ _) (by rw [held]; rfl) rfl
    | sortedSet members => exact acts_counted (Nat.le_succ _) (by rw [held]; rfl) rfl

theorem zadd_acts (members : List (Float × Bytes)) :
    Acts clock key (.zadd members) state (state.zadd clock.now key members).1
      (state.zadd clock.now key members).2 := by
  unfold zadd
  cases held : state.live clock.now key with
  | none =>
    simp only [opened_entry, held, Option.getD_none, Entry.new]
    exact acts_stored (by rw [held]; rfl) rfl
  | some current =>
    simp only [opened_entry, held, Option.getD_some]
    obtain ⟨data, expiresAt, version⟩ := current
    cases data with
    | sortedSet set => exact acts_stored (by rw [held]; rfl) rfl
    | string _ | list _ | stream _ => exact acts_opened held rfl rfl

theorem zrem_acts (members : List Bytes) :
    Acts clock key (.zrem members) state (state.zrem clock.now key members).1
      (state.zrem clock.now key members).2 := by
  unfold zrem
  simp only [looked_self]
  cases held : state.live clock.now key with
  | none => exact acts_counted (Nat.le_succ _) (by rw [held]; rfl) rfl
  | some current =>
    obtain ⟨data, expiresAt, version⟩ := current
    cases data with
    | sortedSet set =>
      have taken := acts_taken (.zrem members) (.ok (set.takeAll members).2)
        (.sortedSet (set.takeAll members).1) (set.takeAll members).1.isEmpty held rfl
      simpa only [KeyOp.wrote, decide_eq_true_eq, looked_changes] using taken
    | string _ | list _ | stream _ => exact acts_counted (Nat.le_succ _) (by rw [held]; rfl) rfl

/-- Appending wakes those watching the key, which the keyspace knows nothing
of. -/
theorem acts_wakeWatchers (written : op.wrote reply = true)
    (acts : Acts clock key op state after reply) :
    Acts clock key op state (after.wakeWatchers key) reply where
  cell := by
    obtain ⟨cell, acted, stored | ⟨-, unwritten, -⟩⟩ := acts.cell
    · exact ⟨cell, acted, .inl stored⟩
    · simp [written] at unwritten
  frame := acts.frame
  counted := acts.counted
  stamped := acts.stamped

theorem xadd_stream (unix : UInt64) (requested : RequestedId)
    (fields : List (Bytes × Bytes)) (stream : List StreamEntry)
    (expiresAt : Option Instant) (above : ¬ xadd.belowZero requested) :
    Cell.xadd unix requested fields (some ⟨.stream stream, expiresAt⟩) =
      match Cell.append unix requested fields stream with
      | .error error => (some ⟨.stream stream, expiresAt⟩, .error error)
      | .ok (id, stream) => (some ⟨.stream stream, expiresAt⟩, .ok id) :=
  if_neg above

theorem xadd_acts (requested : RequestedId) (fields : List (Bytes × Bytes)) :
    Acts clock key (.xadd requested fields) state
      (state.xadd clock.now clock.unix key requested fields).1
      (state.xadd clock.now clock.unix key requested fields).2 := by
  unfold xadd
  by_cases below : xadd.belowZero requested
  · rw [if_pos below]
    exact acts_unseen (by simp [KeyOp.act, Cell.xadd, below]) rfl
  · rw [if_neg below]
    cases held : state.live clock.now key with
    | none =>
      simp only [opened_entry, held, Option.getD_none, Entry.new]
      obtain ⟨id, resolved, -⟩ := @resolve_none clock.unix requested
      simp only [List.getLast?_nil, Option.map_none, resolved, Option.any_none,
        Bool.false_eq_true, if_false, List.nil_append]
      refine acts_wakeWatchers rfl (acts_stored ?_ rfl)
      rw [held]
      simp [KeyOp.act, Cell.xadd, below, Cell.append, resolved]
    | some current =>
      simp only [opened_entry, held, Option.getD_some]
      obtain ⟨data, expiresAt, version⟩ := current
      cases data with
      | stream stream =>
        have answered := xadd_stream clock.unix requested fields stream expiresAt below
        simp only [Cell.append] at answered
        cases resolved : resolve clock.unix requested
            (stream.getLast?.map StreamEntry.id) with
        | error error =>
          simp only [resolved] at answered ⊢
          exact acts_opened held (by simp [KeyOp.act, Entry.cell, answered]) rfl
        | ok id =>
          simp only [resolved] at answered ⊢
          split
          · rename_i notAbove
            simp only [notAbove, if_true] at answered
            exact acts_opened held (by simp [KeyOp.act, Entry.cell, answered]) rfl
          · rename_i above
            simp only [above] at answered
            refine acts_wakeWatchers rfl (acts_stored ?_ rfl)
            simp [held, KeyOp.act, Entry.cell, answered]
      | string _ | list _ | sortedSet _ =>
        exact acts_opened held (by simp [KeyOp.act, Cell.xadd, below, Entry.cell]) rfl

theorem xrange_acts (start stop : EntryId) {reply : Except WrongType (List StreamEntry)}
    (performed : state.xrange clock.now key start stop = some (after, reply)) :
    Acts clock key (.xrange start stop) state after reply := by
  simp only [xrange, streamAt_eq] at performed
  cases held : state.live clock.now key with
  | none =>
    simp only [held, Option.some.injEq, Prod.mk.injEq] at performed
    obtain ⟨rfl, rfl⟩ := performed
    exact acts_looked (by rw [held]; rfl) rfl
  | some entry =>
    simp only [held] at performed
    cases found : Cell.stream (some entry.cell) with
    | error error =>
      simp only [found, Except.map, Option.some.injEq, Prod.mk.injEq] at performed
      obtain ⟨rfl, rfl⟩ := performed
      exact acts_looked (by simp [held, KeyOp.act, found]) rfl
    | ok stream =>
      simp only [found, Except.map] at performed
      split at performed
      · cases performed
      · rename_i inOrder
        simp only [Option.some.injEq, Prod.mk.injEq] at performed
        obtain ⟨rfl, rfl⟩ := performed
        exact acts_looked (by simp [held, KeyOp.act, found, Cell.between, inOrder]) rfl

/-- A method other than a push does to its key what the keyspace says. -/
theorem performOn_acts (noPush : ∀ elements side, op ≠ .push elements side)
    (performed : state.performOn clock key op = some (after, reply)) :
    Acts clock key op state after reply := by
  have only {result : State × op.Reply}
      (acts : Acts clock key op state result.1 result.2)
      (performed : some result = some (after, reply)) :
      Acts clock key op state after reply := by
    rw [Option.some.injEq] at performed
    rw [performed] at acts
    exact acts
  cases op with
  | kind => exact only kind_acts performed
  | set value expiresIn =>
    simp only [performOn, Option.map_eq_some_iff, Prod.mk.injEq] at performed
    obtain ⟨next, performed, rfl, -⟩ := performed
    exact set_acts value expiresIn performed
  | get => exact only get_acts performed
  | increment => exact only increment_acts performed
  | push elements side => exact absurd rfl (noPush elements side)
  | lpop count => exact only (lpop_acts count) performed
  | lrange start stop => exact only (lrange_acts start stop) performed
  | llen => exact only llen_acts performed
  | xadd requested fields => exact only (xadd_acts requested fields) performed
  | xrange start stop => exact xrange_acts start stop performed
  | zadd members => exact only (zadd_acts members) performed
  | zrank member =>
    simp only [performOn, zrank, asked_eq] at performed
    exact only (acts_looked rfl rfl) performed
  | zrem members => exact only (zrem_acts members) performed
  | zmembers =>
    simp only [performOn, zmembers, asked_eq] at performed
    exact only (acts_looked rfl rfl) performed
  | zscore member =>
    simp only [performOn, zscore, asked_eq] at performed
    exact only (acts_looked rfl rfl) performed
  | zcard =>
    simp only [performOn, zcard, asked_eq] at performed
    exact only (acts_looked rfl rfl) performed
  | zrange start stop =>
    simp only [performOn, zrange, asked_eq] at performed
    exact only (acts_looked rfl rfl) performed

end State

end RedisServer
