import RedisServer.Store.Waiters

/-!
# What the store always holds

The invariant every state of the store satisfies, and that every call keeps it:
no key holds an empty collection, streams and sorted sets are in order, only
strings carry a deadline, and no stamp is ahead of the counter.

Beside it stands what a call does to one key: a call that wrote to the key leaves
it absent or freshly stamped, and any other leaves its entry alone, or drops one
whose time had passed.
-/

namespace RedisServer

variable {now : Instant} {after before state : State} {clock : Clock} {op : KeyOp}
  {reply : op.Reply}

/-- What a key may hold. -/
def Data.Proper : Data → Prop
  | .string _ => True
  | .list elements => elements ≠ []
  | .stream entries => entries ≠ [] ∧
      entries.Pairwise (fun earlier later => earlier.id < later.id) ∧
      ∀ entry ∈ entries, EntryId.zero < entry.id
  | .sortedSet members => members ≠ [] ∧ SortedSet.Proper members

/-- Whether a key holds a string. -/
def Data.isString : Data → Bool
  | .string _ => true
  | _ => false

/-- What a key may hold, only a string being held until a deadline. -/
structure Cell.Proper (cell : Cell) : Prop where
  data : cell.data.Proper
  undated : cell.expiresAt.isSome → cell.data.isString

/-- The invariant of the store. -/
structure State.Proper (state : State) : Prop where
  cells : ∀ (key : Bytes) (entry : Entry),
    state.entries[key]? = some entry → entry.cell.Proper
  stamps : ∀ (key : Bytes) (entry : Entry),
    state.entries[key]? = some entry → entry.version ≤ state.changes

/-- The arguments the command layer calls a method with: pushes and additions
bring something, and scores are numbers. -/
def KeyOp.Proper : KeyOp → Prop
  | .push elements _ => elements ≠ []
  | .zadd members => members ≠ [] ∧ ∀ member ∈ members, (Score.rank member.1).isSome
  | _ => True

def StoreCall.Proper : StoreCall → Prop
  | .on _ op => op.Proper
  | _ => True

/-! ## What a method makes of a proper cell -/

namespace Cell

theorem proper_string (value : Bytes) (expiresAt : Option Instant) :
    Proper ⟨.string value, expiresAt⟩ := ⟨True.intro, fun _ => rfl⟩

/-- A cell that holds no string lapses never. -/
theorem Proper.expiresAt_eq_none {cell : Cell} (proper : cell.Proper)
    (noString : cell.data.isString = false) : cell.expiresAt = none := by
  cases dated : cell.expiresAt with
  | none => rfl
  | some moment =>
    have isString := proper.undated (by simp [dated])
    simp [noString] at isString

/-- Replacing what is no string by what is no string keeps a cell proper. -/
theorem Proper.replace {data data' : Data} {expiresAt : Option Instant}
    (proper : Proper ⟨data, expiresAt⟩) (noString : data.isString = false)
    (replaced : data'.Proper) : Proper ⟨data', expiresAt⟩ := by
  have undated := proper.expiresAt_eq_none noString
  simp only at undated
  subst undated
  exact ⟨replaced, by simp⟩

/-- What appending to a stream comes to, when it goes through. -/
theorem append_eq_ok {unix : UInt64} {requested : RequestedId}
    {fields : List (Bytes × Bytes)} {stream stream' : List StreamEntry} {id : EntryId}
    (appended : append unix requested fields stream = .ok (id, stream')) :
    resolve unix requested (stream.getLast?.map StreamEntry.id) = .ok id ∧
      (∀ last, stream.getLast? = some last → last.id < id) ∧
      stream' = stream ++ [⟨id, fields⟩] := by
  unfold append at appended
  cases resolved : resolve unix requested (stream.getLast?.map StreamEntry.id) with
  | error error => simp [resolved] at appended
  | ok found =>
    simp only [resolved] at appended
    split at appended
    · cases appended
    · rename_i above
      simp only [Except.ok.injEq, Prod.mk.injEq] at appended
      obtain ⟨rfl, rfl⟩ := appended
      refine ⟨rfl, ?_, rfl⟩
      intro last isLast
      simpa [isLast] using above

theorem append_proper {unix : UInt64} {requested : RequestedId}
    {fields : List (Bytes × Bytes)} {stream stream' : List StreamEntry} {id : EntryId}
    (allowed : ¬ State.xadd.belowZero requested)
    (proper : stream = [] ∨ (Data.stream stream).Proper)
    (appended : append unix requested fields stream = .ok (id, stream')) :
    (Data.stream stream').Proper := by
  obtain ⟨resolved, aboveLast, rfl⟩ := append_eq_ok appended
  rcases List.eq_nil_or_concat' stream with rfl | ⟨front, last, rfl⟩
  · obtain ⟨found, resolved', aboveZero⟩ := @resolve_none unix requested
    simp only [List.getLast?_nil, Option.map_none, resolved', Except.ok.injEq] at resolved
    subst resolved
    have positive : EntryId.zero < found := by
      rcases aboveZero with rfl | positive
      · simpa [State.xadd.belowZero] using allowed
      · exact positive
    simpa [Data.Proper] using positive
  · obtain ⟨-, ordered, positive⟩ := proper.resolve_left (by simp)
    have aboveTop : last.id < id := aboveLast last (by simp)
    refine ⟨by simp, ?_, ?_⟩
    · rw [List.pairwise_append] at ordered ⊢
      refine ⟨?_, List.pairwise_singleton _ _, ?_⟩
      · rw [List.pairwise_append]
        exact ordered
      · intro earlier member later isLater
        obtain rfl := List.mem_singleton.mp isLater
        rcases List.mem_append.mp member with inFront | isLast
        · exact (ordered.2.2 earlier inFront last (by simp)).trans aboveTop
        · obtain rfl := List.mem_singleton.mp isLast
          exact aboveTop
    · intro entry member
      rcases List.mem_append.mp member with before | isNew
      · exact positive entry before
      · obtain rfl := List.mem_singleton.mp isNew
        exact (positive last (by simp)).trans aboveTop

end Cell

namespace Cell

variable {cell : Option Cell} (proper : ∀ held, cell = some held → held.Proper)

include proper

theorem increment_proper : ∀ held, (increment cell).1 = some held → held.Proper := by
  intro held result
  rcases cell with _ | ⟨value | _ | _ | _, expiresAt⟩
  · simp only [increment, Option.some.injEq] at result
    exact result ▸ proper_string _ _
  · simp only [increment] at result
    split at result
    · exact proper held result
    · split at result
      · exact proper held result
      · simp only [Option.some.injEq] at result
        exact result ▸ proper_string _ _
  all_goals exact proper held result

theorem push_proper {elements : List Bytes} (nonempty : elements ≠ []) (side : Side) :
    ∀ held, (push elements side cell).1 = some held → held.Proper := by
  intro held result
  rcases cell with _ | ⟨_ | list | _ | _, expiresAt⟩
  · simp only [push, Option.some.injEq] at result
    exact result ▸ ⟨State.pushOnto_ne_nil nonempty side [], by simp⟩
  · exact proper held result
  · simp only [push, Option.some.injEq] at result
    exact result ▸ (proper _ rfl).replace rfl (State.pushOnto_ne_nil nonempty side list)
  all_goals exact proper held result

theorem lpop_proper (count : Nat) :
    ∀ held, (lpop count cell).1 = some held → held.Proper := by
  intro held result
  rcases cell with _ | ⟨_ | list | _ | _, expiresAt⟩
  · cases result
  · exact proper held result
  · simp only [lpop] at result
    split at result
    · cases result
    · rename_i left
      simp only [Option.some.injEq] at result
      exact result ▸ (proper _ rfl).replace rfl (by simpa [Data.Proper] using left)
  all_goals exact proper held result

theorem zadd_proper {members : List (Float × Bytes)} (nonempty : members ≠ [])
    (numbers : ∀ member ∈ members, (Score.rank member.1).isSome) :
    ∀ held, (zadd members cell).1 = some held → held.Proper := by
  intro held result
  rcases cell with _ | ⟨_ | _ | _ | set, expiresAt⟩
  · simp only [zadd, Option.some.injEq] at result
    exact result ▸ ⟨⟨SortedSet.addAll_ne_nil (.inr nonempty),
      SortedSet.proper_nil.addAll numbers⟩, by simp⟩
  · exact proper held result
  · exact proper held result
  · exact proper held result
  · simp only [zadd, Option.some.injEq] at result
    have ordered : SortedSet.Proper set := (proper _ rfl).data.2
    exact result ▸ (proper _ rfl).replace rfl
      ⟨SortedSet.addAll_ne_nil (.inr nonempty), ordered.addAll numbers⟩

theorem zrem_proper (members : List Bytes) :
    ∀ held, (zrem members cell).1 = some held → held.Proper := by
  intro held result
  rcases cell with _ | ⟨_ | _ | _ | set, expiresAt⟩
  · cases result
  · exact proper held result
  · exact proper held result
  · exact proper held result
  · simp only [zrem] at result
    split at result
    · cases result
    · rename_i left
      simp only [Option.some.injEq] at result
      have ordered : SortedSet.Proper set := (proper _ rfl).data.2
      exact result ▸ (proper _ rfl).replace rfl
        ⟨by simpa using left, ordered.takeAll members⟩

theorem xadd_proper (unix : UInt64) (requested : RequestedId)
    (fields : List (Bytes × Bytes)) :
    ∀ held, (xadd unix requested fields cell).1 = some held → held.Proper := by
  intro held result
  unfold xadd at result
  split at result
  · exact proper held result
  · rename_i allowed
    split at result
    · split at result
      · exact proper held result
      · rename_i appended
        simp only [Option.some.injEq] at result
        exact result ▸ ⟨append_proper allowed (.inl rfl) appended, by simp⟩
    · rename_i stream expiresAt
      split at result
      · exact proper held result
      · rename_i appended
        simp only [Option.some.injEq] at result
        have before := proper _ rfl
        exact result ▸ before.replace rfl
          (append_proper allowed (.inr before.data) appended)
    · exact proper held result

end Cell

/-- A method makes a proper cell of a proper one. -/
theorem KeyOp.act_proper (called : op.Proper) {cell cell' : Option Cell}
    (proper : ∀ held, cell = some held → held.Proper)
    (acted : op.act clock cell = some (cell', reply)) :
    ∀ held, cell' = some held → held.Proper := by
  have only {result : Option Cell × op.Reply}
      (kept : ∀ held, result.1 = some held → held.Proper)
      (acted : some result = some (cell', reply)) :
      ∀ held, cell' = some held → held.Proper := by
    rw [Option.some.injEq] at acted
    rw [acted] at kept
    exact kept
  cases op with
  | set value expiresIn =>
    simp only [act, Option.map_eq_some_iff, Prod.mk.injEq] at acted
    obtain ⟨expiresAt, -, rfl, -⟩ := acted
    rintro held ⟨⟩
    exact Cell.proper_string value expiresAt
  | increment => exact only (Cell.increment_proper proper) acted
  | push elements side => exact only (Cell.push_proper proper called side) acted
  | lpop count => exact only (Cell.lpop_proper proper count) acted
  | xadd requested fields => exact only (Cell.xadd_proper proper _ requested fields) acted
  | zadd members => exact only (Cell.zadd_proper proper called.1 called.2) acted
  | zrem members => exact only (Cell.zrem_proper proper members) acted
  | _ => exact KeyOp.act_of_looks rfl acted ▸ proper

/-- A method that wrote nothing leaves a proper cell as it was. -/
theorem KeyOp.act_unwritten {cell cell' : Option Cell}
    (proper : ∀ held, cell = some held → held.Proper)
    (acted : op.act clock cell = some (cell', reply)) (unwritten : op.wrote reply = false) :
    cell' = cell := by
  have only {result : Option Cell × op.Reply}
      (kept : op.wrote result.2 = false → result.1 = cell)
      (acted : some result = some (cell', reply)) : cell' = cell := by
    rw [Option.some.injEq] at acted
    rw [acted] at kept
    exact kept unwritten
  cases op with
  | set value expiresIn => cases unwritten
  | increment =>
    refine only ?_ acted
    rcases cell with _ | ⟨value | _ | _ | _, expiresAt⟩
    · rintro ⟨⟩
    · simp only [Cell.increment]
      split
      · exact fun _ => rfl
      · split
        · exact fun _ => rfl
        · rintro ⟨⟩
    all_goals exact fun _ => rfl
  | push elements side =>
    refine only ?_ acted
    rcases cell with _ | ⟨_ | list | _ | _, expiresAt⟩
    · rintro ⟨⟩
    · exact fun _ => rfl
    · rintro ⟨⟩
    all_goals exact fun _ => rfl
  | lpop count =>
    refine only ?_ acted
    rcases cell with _ | ⟨_ | list | _ | _, expiresAt⟩
    · exact fun _ => rfl
    · exact fun _ => rfl
    · have nonempty : list ≠ [] := (proper _ rfl).data
      simp only [wrote, Cell.lpop, Bool.not_eq_false', List.isEmpty_iff,
        List.take_eq_nil_iff, nonempty, or_false]
      rintro rfl
      simp [nonempty]
    all_goals exact fun _ => rfl
  | xadd requested fields =>
    refine only ?_ acted
    simp only [Cell.xadd]
    split
    · exact fun _ => rfl
    · split
      · split
        · exact fun _ => rfl
        · rintro ⟨⟩
      · split
        · exact fun _ => rfl
        · rintro ⟨⟩
      · exact fun _ => rfl
  | zadd members =>
    refine only ?_ acted
    rcases cell with _ | ⟨_ | _ | _ | set, expiresAt⟩
    · rintro ⟨⟩
    · exact fun _ => rfl
    · exact fun _ => rfl
    · exact fun _ => rfl
    · rintro ⟨⟩
  | zrem members =>
    refine only ?_ acted
    rcases cell with _ | ⟨_ | _ | _ | set, expiresAt⟩
    · exact fun _ => rfl
    · exact fun _ => rfl
    · exact fun _ => rfl
    · exact fun _ => rfl
    · have nonempty : set ≠ [] := (proper _ rfl).data.1
      intro none_taken
      have unchanged : (set.takeAll members).1 = set :=
        SortedSet.takeAll_of_none (by simpa [wrote, Cell.zrem] using none_taken)
      simp [Cell.zrem, unchanged, nonempty]
  | _ => exact KeyOp.act_of_looks rfl acted

/-! ## Calls that only look -/

namespace State

/-- What is left by a call that only looks: keys whose time has passed may be
gone, and nothing else of the table or of its queues has changed. -/
structure Looks (now : Instant) (before after : State) : Prop where
  entries : Lapsed now before.entries after.entries
  changes : after.changes = before.changes
  waiters : after.waiters = before.waiters
  oneshots : after.oneshots = before.oneshots
  handles : before.handles ≤ after.handles

namespace Looks

theorem refl (now : Instant) (state : State) : Looks now state state :=
  ⟨.refl now state.entries, rfl, rfl, rfl, le_rfl⟩

theorem trans {first second third : State} (earlier : Looks now first second)
    (later : Looks now second third) :
    Looks now first third :=
  ⟨earlier.entries.trans later.entries, later.changes.trans earlier.changes,
    later.waiters.trans earlier.waiters, later.oneshots.trans earlier.oneshots,
    earlier.handles.trans later.handles⟩

end Looks

/-- What is left by a call that does nothing but drop keys whose time has passed. -/
structure Drops (now : Instant) (before after : State) : Prop where
  entries : Lapsed now before.entries after.entries
  rest : after = { before with entries := after.entries }

namespace Drops

theorem refl (now : Instant) (state : State) : Drops now state state :=
  ⟨.refl now state.entries, rfl⟩

theorem trans {first second third : State} (earlier : Drops now first second)
    (later : Drops now second third) : Drops now first third := by
  refine ⟨earlier.entries.trans later.entries, ?_⟩
  have rest := later.rest
  rw [earlier.rest] at rest
  exact rest

theorem looks (drops : Drops now before after) :
    Looks now before after := by
  refine ⟨drops.entries, ?_, ?_, ?_, ?_⟩ <;> rw [drops.rest]

end Drops

theorem looked_drops (now : Instant) (state : State) (key : Bytes) :
    Drops now state (state.looked now key) :=
  ⟨dropIfExpired_lapsed now state.entries key, rfl⟩

theorem looked_looks (now : Instant) (state : State) (key : Bytes) :
    Looks now state (state.looked now key) := (looked_drops now state key).looks

theorem keys_drops (now : Instant) (state : State) (wanted : Bytes → Bool) :
    Drops now state (state.keys now wanted).1 := by
  refine ⟨?_, rfl⟩
  intro key
  simp only [keys, Std.ExtTreeMap.getElem?_filter']
  cases held : state.entries[key]? with
  | none => exact .inl rfl
  | some entry =>
    by_cases expired : entry.hasExpired now
    · exact .inr ⟨by simp [Option.filter, expired], entry, rfl, expired⟩
    · exact .inl (by simp [Option.filter, expired])

theorem versions_drops (now : Instant) (state : State) (keys : List Bytes) :
    Drops now state (state.versions now keys).1 := by
  induction keys generalizing state with
  | nil => exact .refl now state
  | cons key keys ih => exact (looked_drops now state key).trans (ih _)

theorem unchanged_drops (now : Instant) (state : State)
    (watched : List (Bytes × Option Nat)) :
    Drops now state (state.unchanged now watched).1 := by
  induction watched generalizing state with
  | nil => exact .refl now state
  | cons watch watched ih =>
    simp only [unchanged]
    split
    · exact (looked_drops now state watch.1).trans (ih _)
    · exact looked_drops now state watch.1

theorem streamAt_drops (now : Instant) (state : State) (key : Bytes) :
    Drops now state (state.streamAt now key).1 := looked_drops now state key

theorem resolveReads_drops (now : Instant) (state : State)
    (reads : List (Bytes × Option EntryId)) :
    Drops now state (state.resolveReads now reads).1 := by
  induction reads generalizing state with
  | nil => exact .refl now state
  | cons read reads ih =>
    obtain ⟨key, _ | after⟩ := read
    · have first := streamAt_drops now state key
      simp only [resolveReads]
      generalize state.streamAt now key = found at first ⊢
      obtain ⟨next, _ | stream⟩ := found
      · exact first
      · have rest := ih next
        simp only
        generalize next.resolveReads now reads = resolved at rest ⊢
        obtain ⟨last, _ | others⟩ := resolved <;> exact first.trans rest
    · have rest := ih state
      simp only [resolveReads]
      generalize state.resolveReads now reads = resolved at rest ⊢
      obtain ⟨last, _ | others⟩ := resolved <;> exact rest

theorem xread_drops (now : Instant) (state : State) (reads : List (Bytes × EntryId)) :
    Drops now state (state.xread now reads).1 := by
  induction reads generalizing state with
  | nil => exact .refl now state
  | cons read reads ih =>
    have first := streamAt_drops now state read.1
    simp only [xread]
    generalize state.streamAt now read.1 = found at first ⊢
    obtain ⟨next, _ | stream⟩ := found
    · exact first
    · have rest := ih next
      simp only
      generalize next.xread now reads = others at rest ⊢
      obtain ⟨last, _ | streams⟩ := others <;> exact first.trans rest

theorem watch_looks (now : Instant) (waker : Nat) (state : State)
    (reads : List (Bytes × EntryId)) : Looks now state (state.watch waker reads) := by
  induction reads generalizing state with
  | nil => exact .refl now state
  | cons read reads ih =>
    simp only [watch]
    refine Looks.trans ?_ (ih _)
    exact ⟨.refl now state.entries, rfl, rfl, rfl, le_rfl⟩

theorem xreadOrWatch_looks (now : Instant) (state : State)
    (reads : List (Bytes × EntryId)) :
    Looks now state (state.xreadOrWatch now reads).1 := by
  have first := (xread_drops now state reads).looks
  simp only [xreadOrWatch]
  generalize state.xread now reads = found at first ⊢
  obtain ⟨next, _ | _ | streams⟩ := found
  · exact first
  · refine first.trans (Looks.trans ?_ (watch_looks now _ _ reads))
    exact ⟨.refl now next.entries, rfl, rfl, rfl, Nat.le_succ _⟩
  · exact first

/-! ## Blocking pops -/

/-- A blocking pop takes the first element of a list, or joins the queue of a key
that holds nothing. -/
theorem blpop_spec {now : Instant} {state : State} (proper : state.Proper)
    (key : Bytes) :
    (∃ entry, state.live now key = some entry ∧ (∀ list, entry.data ≠ .list list) ∧
      state.blpop now key = some (state.looked now key, .error .wrongType)) ∨
    (∃ element list, Cell.list ((state.live now key).map Entry.cell) =
        .ok (element :: list) ∧
      ∃ after, state.blpop now key = some (after, .ok (.ready element)) ∧
        (∀ other : Bytes, after.entries[other]? =
          if other = key then listEntry list (state.changes + 1)
          else state.entries[other]?) ∧
        after.changes = state.changes + 1 ∧ after.waiters = state.waiters ∧
        after.oneshots = state.oneshots ∧ after.handles = state.handles) ∨
    (state.live now key = none ∧
      state.blpop now key = some
        ({ state.looked now key with
            waiters := state.waiters.insert key
              ((state.waiters[key]?.getD []).filter
                (fun waiter => state.oneshots[waiter]? ≠ some .closed) ++ [state.handles])
            oneshots := state.oneshots.insert state.handles .waiting
            handles := state.handles + 1 },
          .ok (.waiting state.handles))) := by
  cases held : state.live now key with
  | none =>
    refine .inr (.inr ⟨rfl, ?_⟩)
    simp only [blpop, looked_self, held]
    rfl
  | some entry =>
    have cellProper := proper.cells key entry (live_eq_some held).1
    obtain ⟨data, expiresAt, version⟩ := entry
    cases data with
    | list list =>
      obtain rfl : expiresAt = none := cellProper.expiresAt_eq_none rfl
      obtain ⟨element, list, rfl⟩ := List.exists_cons_of_ne_nil cellProper.data
      have found : (state.looked now key).entries[key]? =
          listEntry (element :: list) version := by
        rw [looked_self, held, listEntry_cons]
      obtain ⟨left, popped, lookups⟩ := popFirst_listEntry (state.changes + 1) found
      refine .inr (.inl ⟨element, list, rfl,
        { state.looked now key with entries := left, changes := state.changes + 1 },
        ?_, ?_, rfl, rfl, rfl, rfl⟩)
      · simp only [blpop, looked_self, held, looked_changes, popped, Option.map_some]
      · intro other
        rw [lookups]
        split
        · rfl
        · rw [looked_lookup, if_neg ‹_›]
    | string value =>
      refine .inl ⟨_, rfl, by simp, ?_⟩
      simp only [blpop, looked_self, held]
    | stream entries =>
      refine .inl ⟨_, rfl, by simp, ?_⟩
      simp only [blpop, looked_self, held]
    | sortedSet members =>
      refine .inl ⟨_, rfl, by simp, ?_⟩
      simp only [blpop, looked_self, held]

/-! ## One call, one key -/

/-- What a call does to one key: it wrote to it, and left it absent or freshly
stamped, or it left its entry alone but for dropping one whose time has passed. -/
inductive Touched (now : Instant) (before after : State) (key : Bytes) : Bool → Prop where
  | written (advanced : before.changes < after.changes)
      (stamped : ∀ entry : Entry, after.entries[key]? = some entry →
        entry.version = after.changes ∧ entry.cell.Proper) :
      Touched now before after key true
  | left (kept : after.entries[key]? = before.entries[key]? ∨
        (after.entries[key]? = none ∧
          ∃ entry : Entry, before.entries[key]? = some entry ∧ entry.hasExpired now)) :
      Touched now before after key false

end State

/-- Whether a call changed a key, by what it answered. -/
def StoreCall.wrote (key : Bytes) : (call : StoreCall) → call.Reply → Bool
  | .on target op, reply => target = key && op.wrote reply
  | .blpop target, .ok (.ready _) => target = key
  | _, _ => false

/-- The calls that look at any number of keys, and write to none. -/
def StoreCall.Surveys : StoreCall → Prop
  | .on _ _ => False
  | .blpop _ => False
  | _ => True

namespace State

theorem Looks.touched (looks : Looks now before after) (key : Bytes) :
    Touched now before after key false :=
  .left (looks.entries key)

/-- What a method does to the keys it does and does not concern. -/
theorem Acts.touched {target : Bytes} (proper : before.Proper) (called : op.Proper)
    (acts : Acts clock target op before after reply) (key : Bytes) :
    Touched clock.now before after key (target = key && op.wrote reply) := by
  have livesProper : ∀ held, (before.live clock.now target).map Entry.cell = some held →
      held.Proper := by
    intro held found
    obtain ⟨entry, isLive, rfl⟩ := Option.map_eq_some_iff.mp found
    exact proper.cells target entry (live_eq_some isLive).1
  by_cases same : target = key
  · subst same
    simp only [decide_true, Bool.true_and]
    obtain ⟨cell, acted, stored⟩ := acts.cell
    have cellProper := KeyOp.act_proper called livesProper acted
    cases wrote : op.wrote reply with
    | true =>
      rw [wrote] at stored
      rcases stored with stored | ⟨-, ⟨⟩, -⟩
      refine .written (by rw [acts.stamped wrote]; exact Nat.lt_succ_self _) ?_
      intro entry held
      rw [stored, stamp, Option.map_eq_some_iff] at held
      obtain ⟨made, isMade, rfl⟩ := held
      exact ⟨(acts.stamped wrote).symm, cellProper made isMade⟩
    | false =>
      rw [wrote] at stored
      rcases stored with stored | ⟨rfl, -, -⟩
      · rw [KeyOp.act_unwritten livesProper acted wrote, stamp_kept] at stored
        refine .left ?_
        rw [stored, ← looked_self]
        exact (looked_looks clock.now before target).entries target
      · exact .left (.inl rfl)
  · simp only [same, decide_false, Bool.false_and]
    exact .left (.inl (acts.frame key fun equal => same equal.symm))

/-- A list put at a key and stamped is a write to it. -/
theorem touched_of_listEntry {target : Bytes} {list : List Bytes}
    (counted : after.changes = before.changes + 1)
    (lookups : ∀ other : Bytes, after.entries[other]? =
      if other = target then listEntry list (before.changes + 1)
      else before.entries[other]?) (key : Bytes) :
    Touched now before after key (target = key) := by
  by_cases same : target = key
  · subst same
    simp only [decide_true]
    refine .written (by omega) ?_
    intro entry held
    rw [lookups, if_pos rfl] at held
    cases list with
    | nil => cases held
    | cons element list =>
      rw [listEntry_cons, Option.some.injEq] at held
      subst held
      exact ⟨counted.symm, ⟨by simp [Data.Proper, Entry.cell], by simp [Entry.cell]⟩⟩
  · simp only [same, decide_false]
    exact .left (.inl (by rw [lookups, if_neg fun equal => same equal.symm]))

theorem live_undated (proper : state.Proper) {key : Bytes} {entry : Entry} {list : List Bytes}
    (held : state.live now key = some entry) (isList : entry.data = .list list) :
    entry.expiresAt = none := by
  refine (proper.cells key entry (live_eq_some held).1).expiresAt_eq_none ?_
  simp [Entry.cell, isList, Data.isString]

theorem perform_looks {call : StoreCall} {reply : call.Reply}
    (performed : state.perform clock call = some (after, reply)) (surveys : call.Surveys) :
    Looks clock.now state after := by
  have only {result : State × call.Reply} (looks : Looks clock.now state result.1)
      (performed : some result = some (after, reply)) : Looks clock.now state after := by
    rw [Option.some.injEq] at performed
    rwa [performed] at looks
  cases call with
  | on _ _ | blpop _ => exact surveys.elim
  | keys wanted => exact only (keys_drops clock.now state wanted).looks performed
  | versions keys => exact only (versions_drops clock.now state keys).looks performed
  | unchanged watched => exact only (unchanged_drops clock.now state watched).looks performed
  | resolveReads reads => exact only (resolveReads_drops clock.now state reads).looks performed
  | xread reads => exact only (xread_drops clock.now state reads).looks performed
  | xreadOrWatch reads => exact only (xreadOrWatch_looks clock.now state reads) performed

/-- A call touches the keys it wrote to, and no others. -/
theorem perform_touched {call : StoreCall} {reply : call.Reply} (proper : state.Proper)
    (called : call.Proper) (performed : state.perform clock call = some (after, reply))
    (key : Bytes) :
    Touched clock.now state after key (call.wrote key reply) ∧
      state.changes ≤ after.changes := by
  cases call with
  | on target op =>
    by_cases push : ∃ elements side, op = .push elements side
    · obtain ⟨elements, side, rfl⟩ := push
      simp only [perform, performOn, Option.some.injEq] at performed
      rcases push_spec called side fun _ _ => live_undated proper with
        ⟨error, replied, acts, -, -⟩ | ⟨old, -, replied, counted, served⟩
      · rw [performed] at replied acts
        simp only at replied acts
        subst replied
        have nonempty : (KeyOp.push elements side).Proper := called
        exact ⟨acts.touched proper nonempty key, acts.counted⟩
      · rw [performed] at replied counted served
        simp only at replied counted served
        subst replied
        simp only [StoreCall.wrote, KeyOp.wrote, Bool.and_true]
        exact ⟨touched_of_listEntry counted served.entries key, by omega⟩
    · have acts := performOn_acts
        (fun elements side isPush => push ⟨elements, side, isPush⟩) performed
      exact ⟨acts.touched proper called key, acts.counted⟩
  | blpop target =>
    simp only [perform] at performed
    rcases @blpop_spec clock.now state proper target with
      ⟨entry, -, -, popped⟩ | ⟨element, list, -, next, popped, lookups, counted, -⟩ |
        ⟨-, popped⟩
    · rw [popped, Option.some.injEq, Prod.mk.injEq] at performed
      obtain ⟨rfl, rfl⟩ := performed
      exact ⟨(looked_looks clock.now state target).touched key, le_rfl⟩
    · rw [popped, Option.some.injEq, Prod.mk.injEq] at performed
      obtain ⟨rfl, rfl⟩ := performed
      exact ⟨touched_of_listEntry counted lookups key, by omega⟩
    · rw [popped, Option.some.injEq, Prod.mk.injEq] at performed
      obtain ⟨rfl, rfl⟩ := performed
      exact ⟨.left ((looked_looks clock.now state target).entries key), le_rfl⟩
  | _ =>
    have looks := perform_looks performed True.intro
    exact ⟨looks.touched key, looks.changes.ge⟩

/-- What touches each key as a call may, keeps the invariant. -/
theorem Proper.of_touched (proper : before.Proper) (counted : before.changes ≤ after.changes)
    (touched : ∀ key, ∃ wrote, Touched now before after key wrote) : after.Proper := by
  have each (key : Bytes) (entry : Entry) (held : after.entries[key]? = some entry) :
      entry.cell.Proper ∧ entry.version ≤ after.changes := by
    obtain ⟨wrote, touched⟩ := touched key
    cases touched with
    | written advanced stamped =>
      exact ⟨(stamped entry held).2, (stamped entry held).1.le⟩
    | left kept =>
      rcases kept with same | ⟨gone, -⟩
      · rw [same] at held
        exact ⟨proper.cells key entry held, (proper.stamps key entry held).trans counted⟩
      · rw [gone] at held
        cases held
  exact ⟨fun key entry held => (each key entry held).1,
    fun key entry held => (each key entry held).2⟩

/-- Every call keeps the invariant. -/
theorem Proper.perform {clock : Clock} {state after : State} {call : StoreCall}
    {reply : call.Reply} (proper : state.Proper) (called : call.Proper)
    (performed : state.perform clock call = some (after, reply)) : after.Proper :=
  proper.of_touched (perform_touched proper called performed []).2
    fun key => ⟨_, (perform_touched proper called performed key).1⟩

theorem proper_empty : ({} : State).Proper := ⟨by simp, by simp⟩

/-! ## Whole runs of the store -/

end State

/-- What may happen to the store: a method is called, or a client that was
waiting gives up. -/
inductive StoreEvent where
  | call (clock : Clock) (call : StoreCall)
  | giveUp (receiver : Nat)

namespace State

/-- One event.  A call that panics leaves the state as it was. -/
def step (state : State) : StoreEvent → State
  | .call clock call =>
    match state.perform clock call with
    | some (after, _) => after
    | none => state
  | .giveUp receiver => state.giveUp receiver

def run (events : List StoreEvent) (state : State) : State := events.foldl step state

theorem Proper.step {state : State} (proper : state.Proper) {event : StoreEvent}
    (called : ∀ clock call, event = .call clock call → call.Proper) :
    (state.step event).Proper := by
  cases event with
  | giveUp receiver => exact ⟨proper.cells, proper.stamps⟩
  | call clock call =>
    simp only [State.step]
    split
    · rename_i performed
      exact proper.perform (called clock call rfl) performed
    · exact proper

theorem Proper.run {state : State} (proper : state.Proper) {events : List StoreEvent}
    (called : ∀ clock call, .call clock call ∈ events → call.Proper) :
    (state.run events).Proper := by
  induction events generalizing state with
  | nil => exact proper
  | cons event events ih =>
    refine ih (proper.step fun clock call isCall => ?_) fun clock call later => ?_
    · exact called clock call (by simp [isCall])
    · exact called clock call (by simp [later])

/-- A blocking pop on a proper state never finds an empty list. -/
theorem Proper.blpop_ne_none (proper : state.Proper) (now : Instant) (key : Bytes) :
    state.blpop now key ≠ none := by
  rcases @blpop_spec now state proper key with
    ⟨_, _, _, popped⟩ | ⟨_, _, _, _, popped, _⟩ | ⟨_, popped⟩
  all_goals simp [popped]

/-- Whatever the store is asked and whoever gives up waiting, it holds no empty
collection, nothing out of order, no deadline but on strings and no stamp from
the future; and a blocking pop never meets an empty list. -/
theorem store_run_proper (events : List StoreEvent)
    (called : ∀ clock call, .call clock call ∈ events → call.Proper) :
    (State.run events {}).Proper ∧
      ∀ now key, (State.run events {}).blpop now key ≠ none :=
  ⟨proper_empty.run called, fun now key => (proper_empty.run called).blpop_ne_none now key⟩

/-- A client waits, gives up, and an element pushed for it stays. -/
theorem store_run_proper_of_abandoned :
    (State.run
      [.call ⟨0, 0⟩ (.blpop [1]), .giveUp 0,
        .call ⟨0, 0⟩ (.on [1] (.push [[2]] .right))] {}).Proper ∧
      ∀ now key, (State.run
        [.call ⟨0, 0⟩ (.blpop [1]), .giveUp 0,
          .call ⟨0, 0⟩ (.on [1] (.push [[2]] .right))] {}).blpop now key ≠ none := by
  refine store_run_proper _ fun clock call member => ?_
  simp only [List.mem_cons, StoreEvent.call.injEq, reduceCtorEq, List.not_mem_nil,
    or_false, false_or] at member
  rcases member with ⟨-, rfl⟩ | ⟨-, rfl⟩
  · exact True.intro
  · exact List.cons_ne_nil _ _

end State

end RedisServer
