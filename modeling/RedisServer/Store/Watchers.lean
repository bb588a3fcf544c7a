import RedisServer.Store.Settled

/-!
# Those who wait for a stream to grow

What one call may do to the wakers left under keys and to the streams themselves: an
entry that is appended wakes everyone under its key, a blocking read that finds nothing
leaves its waker under all of its keys, and every other call leaves both alone.  A waker
its client still holds is never dropped.
-/

namespace RedisServer

variable {after before state : State} {key : Bytes} {now : Instant} {clock : Clock}

/-- The stream in a cell, an absent one being empty. -/
def Cell.entriesOf : Option Cell → List StreamEntry
  | some ⟨.stream entries, _⟩ => entries
  | _ => []

/-- The waker a blocking read has been handed, and what it reads. -/
def StoreCall.watches : (call : StoreCall) → call.Reply → Option (Nat × List (Bytes × EntryId))
  | .xreadOrWatch reads, .ok (.waiting waker) => some (waker, reads)
  | _, _ => none

namespace KeyOp

/-- A method that appends nothing leaves the stream it finds, or none. -/
theorem act_entriesOf {op : KeyOp} {cell after : Option Cell} {reply : op.Reply}
    (proper : ∀ held, cell = some held → held.Proper) (unappended : op.appended reply = false)
    (acted : op.act clock cell = some (after, reply)) :
    Cell.entriesOf after = Cell.entriesOf cell ∨ Cell.entriesOf after = [] := by
  have only {result : Option Cell × op.Reply} (acted : some result = some (after, reply))
      (kept : Cell.entriesOf result.1 = Cell.entriesOf cell ∨ Cell.entriesOf result.1 = []) :
      Cell.entriesOf after = Cell.entriesOf cell ∨ Cell.entriesOf after = [] := by
    rw [Option.some.injEq] at acted
    rwa [acted] at kept
  cases op with
  | set value expiresIn =>
    obtain ⟨expiresAt, -, isAfter⟩ := Option.map_eq_some_iff.mp acted
    cases isAfter
    exact .inr rfl
  | increment =>
    refine only acted ?_
    rcases cell with _ | ⟨_ | _ | _ | _, expiresAt⟩ <;> grind [Cell.increment, Cell.entriesOf]
  | push elements side =>
    refine only acted ?_
    rcases cell with _ | ⟨_ | _ | _ | _, expiresAt⟩ <;> grind [Cell.push, Cell.entriesOf]
  | lpop count =>
    refine only acted ?_
    rcases cell with _ | ⟨_ | _ | _ | _, expiresAt⟩ <;> grind [Cell.lpop, Cell.entriesOf]
  | xadd requested fields =>
    cases reply with
    | ok id => cases unappended
    | error error => exact .inl (congrArg _ (act_unwritten proper acted rfl))
  | zadd members =>
    refine only acted ?_
    rcases cell with _ | ⟨_ | _ | _ | _, expiresAt⟩ <;> grind [Cell.zadd, Cell.entriesOf]
  | zrem members =>
    refine only acted ?_
    rcases cell with _ | ⟨_ | _ | _ | _, expiresAt⟩ <;> grind [Cell.zrem, Cell.entriesOf]
  | _ => exact .inl (congrArg _ (act_of_looks rfl acted))

end KeyOp

namespace State

/-- The stream at a key. -/
def streamOf (state : State) (key : Bytes) : List StreamEntry :=
  Cell.entriesOf (state.entries[key]?.map Entry.cell)

/-- The wakers left under a key. -/
def watchersAt (state : State) (key : Bytes) : List Nat := state.watchers[key]?.getD []

/-- Whether a client still holds on to its waker. -/
def holds (state : State) (waker : Nat) : Prop :=
  ∃ permit, state.wakers[waker]? = some ⟨permit, true⟩

/-! ## Leaving a waker -/

theorem strongCount_of_held {waker : Nat} (held : state.holds waker)
    (left : waker ∈ state.watchersAt key) : 1 < state.strongCount state.watchers waker := by
  obtain ⟨permit, isHeld⟩ := held
  cases found : state.watchers[key]? with
  | none => simp [watchersAt, found] at left
  | some watching =>
    have member : waker ∈ watching := by simpa [watchersAt, found] using left
    have kept : (key, watching) ∈ state.watchers.toList := by
      exact Std.ExtTreeMap.mem_toList_iff_getElem?_eq_some.mpr found
    have counted : watching.count waker ≤
        (state.watchers.toList.map fun kept => kept.2.count waker).sum :=
      List.single_le_sum (by simp) _ (List.mem_map.mpr ⟨_, kept, rfl⟩)
    have some := List.count_pos_iff.mpr member
    simp only [strongCount, isHeld, Option.map_some, Option.getD_some, if_true]
    omega

/-- Leaves a waker under one key. -/
def watchOne (waker : Nat) (state : State) (target : Bytes) : State :=
  { state with
    watchers := state.watchers.insert target
      ((state.watchersAt target).filter (fun other => 1 < state.strongCount state.watchers other) ++
        [waker]) }

theorem watch_cons (waker : Nat) (state : State) (read : Bytes × EntryId)
    (reads : List (Bytes × EntryId)) :
    state.watch waker (read :: reads) = (state.watchOne waker read.1).watch waker reads := rfl

/-- Leaving a waker under one key clears some of the wakers kept there. -/
theorem watchersAt_watchOne (waker : Nat) (state : State) (target key : Bytes) :
    (state.watchOne waker target).watchersAt key =
      if key = target then (state.watchersAt target).filter
        (fun other => 1 < state.strongCount state.watchers other) ++ [waker]
      else state.watchersAt key := by
  rw [watchersAt, watchOne, Map.lookup_insert]
  split <;> rfl

/-- What leaving a waker under keys does. -/
theorem watch_spec (waker : Nat) (state : State) (reads : List (Bytes × EntryId)) :
    let after := state.watch waker reads
    after.entries = state.entries ∧ after.wakers = state.wakers ∧ after.handles = state.handles ∧
      (∀ key other, state.holds other → other ∈ state.watchersAt key →
        other ∈ after.watchersAt key) ∧
      (state.holds waker → ∀ read ∈ reads, waker ∈ after.watchersAt read.1) := by
  induction reads generalizing state with
  | nil => exact ⟨rfl, rfl, rfl, fun _ _ _ member => member, by simp⟩
  | cons read reads ih =>
    obtain ⟨entries, wakers, handles, kept, left⟩ := ih (state.watchOne waker read.1)
    refine ⟨entries, wakers, handles, fun key other held member => kept key other held ?_, ?_⟩
    · rw [watchersAt_watchOne]
      split
      · rename_i same
        subst same
        refine List.mem_append_left _ (List.mem_filter.mpr ⟨member, ?_⟩)
        simpa using strongCount_of_held held member
      · exact member
    · intro held one member
      rcases List.mem_cons.mp member with rfl | later
      · refine kept one.1 waker held ?_
        rw [watchersAt_watchOne, if_pos rfl]
        simp
      · exact left held one later

/-! ## What a call may do -/

/-- The stream at a key is the one it was, or gone. -/
def Unstreamed (before after : State) (key : Bytes) : Prop :=
  after.streamOf key = before.streamOf key ∨ after.streamOf key = []

theorem Unstreamed.mem (same : Unstreamed before after key) {entry : StreamEntry}
    (member : entry ∈ after.streamOf key) : entry ∈ before.streamOf key := by
  rcases same with same | gone
  · rwa [same] at member
  · simp [gone] at member

theorem unstreamed_of_lookup (same : after.entries[key]? = before.entries[key]?) :
    Unstreamed before after key := by
  simp [Unstreamed, streamOf, same]

theorem Looks.unstreamed (looks : Looks now before after) (key : Bytes) :
    Unstreamed before after key := by
  rcases looks.entries key with same | ⟨gone, -⟩
  · exact unstreamed_of_lookup same
  · exact .inr (by simp [streamOf, gone, Cell.entriesOf])

theorem streamOf_of_listEntry {list : List Bytes} {version : Nat}
    (held : state.entries[key]? = listEntry list version) : state.streamOf key = [] := by
  cases list <;> simp [streamOf, held, Entry.cell, Cell.entriesOf]

theorem Acts.unstreamed {target : Bytes} {op : KeyOp} {reply : op.Reply} (proper : before.Proper)
    (acts : Acts clock target op before after reply)
    (unappended : key = target → op.appended reply = false) :
    Unstreamed before after key := by
  by_cases same : key = target
  · subst same
    have livesProper : ∀ held, (before.live clock.now key).map Entry.cell = some held →
        held.Proper := by
      intro held found
      obtain ⟨entry, isLive, rfl⟩ := Option.map_eq_some_iff.mp found
      exact proper.cells key entry (live_eq_some isLive).1
    have live : Cell.entriesOf ((before.live clock.now key).map Entry.cell) = before.streamOf key ∨
        Cell.entriesOf ((before.live clock.now key).map Entry.cell) = [] := by
      have looked := (looked_looks clock.now before key).unstreamed key
      simpa only [Unstreamed, streamOf, looked_self] using looked
    obtain ⟨cell, acted, stored | ⟨rfl, -⟩⟩ := acts.cell
    · have isCell : after.streamOf key = Cell.entriesOf cell := by
        rw [streamOf, stored, contents_stamp]
      rw [Unstreamed, isCell]
      rcases KeyOp.act_entriesOf livesProper (unappended rfl) acted with kept | gone
      · rwa [kept]
      · exact .inr gone
    · exact .inl rfl
  · exact unstreamed_of_lookup (acts.frame key same)

/-- What a call may do to streams and to those who wait for them to grow. -/
inductive Stirs (before after : State) : (call : StoreCall) → call.Reply → Prop where
  | aside {call : StoreCall} {reply : call.Reply} (unwatched : call.watches reply = none)
      (watchers : after.watchers = before.watchers) (wakers : after.wakers = before.wakers)
      (handles : before.handles ≤ after.handles)
      (streams : ∀ key, Unstreamed before after key) : Stirs before after call reply
  | grew (key : Bytes) (requested : RequestedId) (fields : List (Bytes × Bytes)) (id : EntryId)
      (handles : after.handles = before.handles)
      (watchers : ∀ other, other ≠ key → after.watchersAt other = before.watchersAt other)
      (wakers : ∀ (waker : Nat) (permit : Bool), before.wakers[waker]? = some ⟨permit, true⟩ →
        after.wakers[waker]? = some ⟨permit || decide (waker ∈ before.watchersAt key), true⟩)
      (streams : ∀ other, other ≠ key → Unstreamed before after other) :
      Stirs before after (.on key (.xadd requested fields)) (.ok id)
  | watched (reads : List (Bytes × EntryId)) (handles : after.handles = before.handles + 1)
      (wakers : after.wakers = before.wakers.insert before.handles ⟨false, true⟩)
      (watchers : ∀ key waker, before.holds waker → waker < before.handles →
        waker ∈ before.watchersAt key → waker ∈ after.watchersAt key)
      (left : ∀ read ∈ reads, before.handles ∈ after.watchersAt read.1)
      (read : ∀ read ∈ reads, ∀ entry ∈ after.streamOf read.1, entry.id ≤ read.2)
      (streams : ∀ key, Unstreamed before after key) :
      Stirs before after (.xreadOrWatch reads) (.ok (.waiting before.handles))

/-! ### Each call -/

theorem Drops.stirs {call : StoreCall} {reply : call.Reply} (unwatched : call.watches reply = none)
    (drops : Drops now before after) :
    Stirs before after call reply := by
  refine .aside unwatched ?_ ?_ drops.looks.handles drops.looks.unstreamed <;> rw [drops.rest]

/-- Telling clients gives each of them a permit and leaves it as it was who holds a waker. -/
theorem lookup_foldl_wake (woken : List Nat) (wakers : Map Nat Waker) (waker : Nat) :
    (woken.foldl
      (fun wakers waker =>
        wakers.insert waker { wakers[waker]?.getD ⟨false, false⟩ with permit := true })
      wakers)[waker]? =
      if waker ∈ woken then some { wakers[waker]?.getD ⟨false, false⟩ with permit := true }
      else wakers[waker]? := by
  induction woken generalizing wakers with
  | nil => rfl
  | cons first woken ih =>
    rw [List.foldl_cons, ih, Map.lookup_insert]
    by_cases isFirst : waker = first
    · subst isFirst
      simp
    · simp [isFirst]

theorem xadd_wakes {unix : UInt64} {requested : RequestedId} {fields : List (Bytes × Bytes)}
    {id : EntryId} (appended : before.xadd now unix key requested fields = (after, .ok id)) :
    after.watchers = before.watchers.erase key ∧
      after.wakers = (before.watchersAt key).foldl
        (fun wakers waker =>
          wakers.insert waker { wakers[waker]?.getD ⟨false, false⟩ with permit := true })
        before.wakers := by
  simp only [xadd] at appended
  split at appended
  · cases appended
  · split at appended
    · split at appended
      · cases appended
      · split at appended
        · cases appended
        · cases appended
          exact ⟨rfl, rfl⟩
    · cases appended

/-- Serving those who wait for elements leaves those who wait for entries alone. -/
theorem wakeWaiters_watchers (state : State) (key : Bytes) (version : Nat) :
    (state.wakeWaiters key version).watchers = state.watchers ∧
      (state.wakeWaiters key version).wakers = state.wakers := by
  have served (queue : List Nat) (state : State) :
      (state.serve key version queue).watchers = state.watchers ∧
        (state.serve key version queue).wakers = state.wakers := by
    induction queue generalizing state with
    | nil => exact ⟨rfl, rfl⟩
    | cons waiter queue ih =>
      simp only [serve]
      split
      · exact ⟨rfl, rfl⟩
      · split <;> exact ih _
  unfold wakeWaiters
  split
  · exact ⟨rfl, rfl⟩
  · exact served _ _

theorem push_watchers (now : Instant) (state : State) (key : Bytes) (elements : List Bytes)
    (side : Side) :
    (state.push now key elements side).1.watchers = state.watchers ∧
      (state.push now key elements side).1.wakers = state.wakers := by
  unfold push
  dsimp only
  split
  · exact wakeWaiters_watchers _ _ _
  · exact ⟨rfl, rfl⟩

theorem blpop_watchers {reply : Except WrongType Blocked}
    (popped : state.blpop now key = some (after, reply)) :
    after.watchers = state.watchers ∧ after.wakers = state.wakers := by
  simp only [blpop] at popped
  split at popped
  · cases popped
    exact ⟨rfl, rfl⟩
  · obtain ⟨taken, -, isAfter⟩ := Option.map_eq_some_iff.mp popped
    cases isAfter
    exact ⟨rfl, rfl⟩
  · cases popped
    exact ⟨rfl, rfl⟩

theorem streamAt_streamOf {stream : Option (List StreamEntry)}
    (found : before.streamAt now key = (after, .ok stream)) :
    after.streamOf key = stream.getD [] := by
  simp only [streamAt, Prod.mk.injEq] at found
  obtain ⟨rfl, found⟩ := found
  split at found
  · rename_i absent
    cases found
    simp [streamOf, absent, Cell.entriesOf]
  · rename_i held
    cases found
    simp [streamOf, held, Entry.cell, Cell.entriesOf]
  · cases found

/-- A read that comes back empty has found nothing past what it reads from. -/
theorem xread_nothing {reads : List (Bytes × EntryId)}
    (found : before.xread now reads = (after, .ok [])) :
    ∀ read ∈ reads, ∀ entry ∈ after.streamOf read.1, entry.id ≤ read.2 := by
  induction reads generalizing before with
  | nil => simp
  | cons read reads ih =>
    obtain ⟨key, id⟩ := read
    simp only [xread] at found
    cases looked : before.streamAt now key with
    | mk next held =>
      rw [looked] at found
      cases held with
      | error error => cases found
      | ok stream =>
        simp only at found
        cases others : next.xread now reads with
        | mk last streams =>
          rw [others] at found
          cases streams with
          | error error => cases found
          | ok streams =>
            simp only [Prod.mk.injEq, Except.ok.injEq] at found
            obtain ⟨rfl, none⟩ := found
            have nothing : (stream.getD []).drop (partitionPoint
                (fun entry => entry.id ≤ id) (stream.getD [])) = [] ∧ streams = [] := by
              split at none
              · exact ⟨List.isEmpty_iff.mp ‹_›, none⟩
              · cases none
            rw [nothing.2] at others
            refine List.forall_mem_cons.mpr ⟨fun entry member => ?_, ih others⟩
            have drops := xread_drops now next reads
            rw [others] at drops
            have isThere := (drops.looks.unstreamed key).mem member
            rw [streamAt_streamOf looked] at isThere
            rw [drop_partitionPoint, List.dropWhile_eq_nil_iff] at nothing
            simpa using nothing.1 entry isThere

theorem perform_stirs {call : StoreCall} {reply : call.Reply} (proper : before.Proper)
    (called : call.Proper) (performed : before.perform clock call = some (after, reply)) :
    Stirs before after call reply := by
  have seen {result : State × call.Reply} (unwatched : call.watches reply = none)
      (drops : Drops clock.now before result.1) (performed : some result = some (after, reply)) :
      Stirs before after call reply := by
    rw [Option.some.injEq] at performed
    rw [performed] at drops
    exact drops.stirs unwatched
  cases call with
  | on key op =>
    by_cases push : ∃ elements side, op = .push elements side
    · obtain ⟨elements, side, rfl⟩ := push
      simp only [perform, performOn, Option.some.injEq] at performed
      obtain ⟨watchers, wakers⟩ := push_watchers clock.now before key elements side
      rcases push_spec called side fun _ _ => live_undated proper with
        ⟨error, replied, acts, -, -, handles⟩ | ⟨old, isOld, replied, -, served⟩
      · rw [performed] at acts handles watchers wakers
        exact .aside rfl watchers wakers handles.ge fun other => acts.unstreamed proper fun _ => rfl
      · rw [performed] at served watchers wakers
        refine .aside rfl watchers wakers served.handles.ge fun other => ?_
        have held := served.entries other
        split at held
        · exact .inr (streamOf_of_listEntry held)
        · exact unstreamed_of_lookup held
    · have noPush (elements : List Bytes) (side : Side) : op ≠ .push elements side :=
        fun isPush => push ⟨elements, side, isPush⟩
      have spares := performOn_spares noPush performed
      have acts := performOn_acts noPush performed
      cases appended : op.appended reply with
      | false =>
        exact .aside rfl (spares.watchers appended) (spares.wakers appended) spares.handles.ge
          fun other => acts.unstreamed proper fun _ => appended
      | true =>
        cases op with
        | xadd requested fields =>
          cases reply with
          | error error => cases appended
          | ok id =>
            obtain ⟨watchers, wakers⟩ := xadd_wakes (Option.some.inj performed)
            refine .grew key requested fields id spares.handles (fun other different => ?_)
              (fun waker permit held => ?_) fun other different =>
                acts.unstreamed proper fun same => absurd same different
            · simp only [watchersAt, watchers, Map.lookup_erase, if_neg different]
            · rw [wakers, lookup_foldl_wake, held]
              split <;> simp [*]
        | _ => cases appended
  | blpop key =>
    simp only [perform] at performed
    obtain ⟨watchers, wakers⟩ := blpop_watchers performed
    rcases @blpop_spec clock.now before proper key with
      ⟨entry, -, -, popped⟩ |
        ⟨element, list, -, next, popped, lookups, -, -, -, handles⟩ | ⟨-, popped⟩
    all_goals
      rw [popped, Option.some.injEq, Prod.mk.injEq] at performed
      obtain ⟨rfl, rfl⟩ := performed
    · exact (looked_drops clock.now before key).stirs rfl
    · refine .aside rfl watchers wakers handles.ge fun other => ?_
      have held := lookups other
      split at held
      · exact .inr (streamOf_of_listEntry held)
      · exact unstreamed_of_lookup held
    · exact .aside rfl watchers wakers (Nat.le_succ _) fun other =>
        (looked_looks clock.now before key).unstreamed other
  | keys wanted => exact seen rfl (keys_drops clock.now before wanted) performed
  | versions keys => exact seen rfl (versions_drops clock.now before keys) performed
  | unchanged watched => exact seen rfl (unchanged_drops clock.now before watched) performed
  | resolveReads reads => exact seen rfl (resolveReads_drops clock.now before reads) performed
  | xread reads => exact seen rfl (xread_drops clock.now before reads) performed
  | xreadOrWatch reads =>
    simp only [perform, Option.some.injEq, xreadOrWatch] at performed
    have drops := xread_drops clock.now before reads
    cases found : before.xread clock.now reads with
    | mk next streams =>
      rw [found] at performed drops
      rcases streams with error | _ | ⟨stream, streams⟩
      · cases performed
        exact drops.stirs rfl
      · simp only [Prod.mk.injEq] at performed
        obtain ⟨rfl, rfl⟩ := performed
        have nothing := xread_nothing found
        have streams := drops.looks.unstreamed
        obtain ⟨-, isNext⟩ := drops
        generalize next.entries = entries at isNext
        subst isNext
        generalize isNew : ({ before with
          entries
          wakers := before.wakers.insert before.handles ⟨false, true⟩
          handles := before.handles + 1 } : State) = new
        obtain ⟨sameEntries, sameWakers, sameHandles, kept, left⟩ :=
          watch_spec before.handles new reads
        have sameStream (key : Bytes) : (new.watch before.handles reads).streamOf key =
            State.streamOf { before with entries } key := by
          rw [streamOf, sameEntries, ← isNew]
          rfl
        refine .watched reads (by rw [sameHandles, ← isNew]) (by rw [sameWakers, ← isNew])
          ?_ ?_ ?_ ?_
        · intro key waker held older member
          refine kept key waker ?_ (by rw [← isNew]; exact member)
          obtain ⟨permit, isHeld⟩ := held
          refine ⟨permit, ?_⟩
          rw [← isNew, Map.lookup_insert, if_neg (Nat.ne_of_lt older), isHeld]
        · exact left ⟨false, by rw [← isNew, Map.lookup_insert, if_pos rfl]⟩
        · intro read member entry isThere
          rw [sameStream] at isThere
          exact nothing read member entry isThere
        · intro key
          rw [Unstreamed, sameStream]
          exact streams key
      · cases performed
        exact drops.stirs rfl

end State

end RedisServer
