import RedisServer.Store.Refine

/-!
# Serving the clients that wait on a list

`serving` says what a queue makes of a list: the clients that are still there
take the elements off the front in the order they started waiting, and the ones
that have gone are passed over.  The loop of the store, which pops an element for
each client and puts it back when the client turns out to be gone, comes to the
same.
-/

namespace RedisServer

/-- The entry a list is held in, no entry being held for an empty one. -/
def listEntry (list : List Bytes) (version : Nat) : Option Entry :=
  if list.isEmpty then none else some ⟨.list list, none, version⟩

@[simp] theorem listEntry_nil (version : Nat) : listEntry [] version = none := rfl

@[simp] theorem listEntry_cons (element : Bytes) (list : List Bytes) (version : Nat) :
    listEntry (element :: list) version =
      some ⟨.list (element :: list), none, version⟩ := rfl

/-- What is left once those waiting have been served. -/
structure Serving where
  list : List Bytes
  oneshots : Map Nat Oneshot
  queue : List Nat

/-- Serves a queue from the front of a list. -/
def serving (oneshots : Map Nat Oneshot) : List Nat → List Bytes → Serving
  | [], list => ⟨list, oneshots, []⟩
  | waiter :: queue, [] => ⟨[], oneshots, waiter :: queue⟩
  | waiter :: queue, element :: list =>
    if oneshots[waiter]? = some .waiting then
      serving (oneshots.insert waiter (.handed element)) queue list
    else serving oneshots queue (element :: list)

/-- Nobody is served from a queue everyone has left. -/
theorem serving_of_gone {oneshots : Map Nat Oneshot} {queue : List Nat}
    (gone : ∀ waiter ∈ queue, oneshots[waiter]? ≠ some .waiting)
    {list : List Bytes} (nonempty : list ≠ []) :
    serving oneshots queue list = ⟨list, oneshots, []⟩ := by
  induction queue with
  | nil => rfl
  | cons waiter queue ih =>
    obtain ⟨element, rest, rfl⟩ := List.exists_cons_of_ne_nil nonempty
    simp only [serving, if_neg (gone waiter (by simp))]
    exact ih fun other inQueue => gone other (by simp [inQueue])

theorem popFirst_listEntry {entries : Entries} {key element : Bytes}
    {list : List Bytes} {old : Nat} (version : Nat)
    (held : entries[key]? = listEntry (element :: list) old) :
    ∃ left, popFirst entries key version = some (element, left) ∧
      ∀ other : Bytes, left[other]? =
        if other = key then listEntry list version else entries[other]? := by
  rw [listEntry_cons] at held
  refine ⟨_, by simp only [popFirst, held]; rfl, ?_⟩
  intro other
  cases list with
  | nil => simp only [List.isEmpty_nil, if_true, Map.lookup_erase, listEntry_nil]
  | cons next list =>
    simp only [List.isEmpty_cons, Bool.false_eq_true, if_false, Map.lookup_insert,
      listEntry_cons]

theorem pushFirst_listEntry {entries : Entries} {key : Bytes} (element : Bytes)
    {list : List Bytes} {version : Nat} (held : entries[key]? = listEntry list version)
    (other : Bytes) :
    (pushFirst entries key element version)[other]? =
      if other = key then listEntry (element :: list) version else entries[other]? := by
  cases list with
  | nil =>
    rw [listEntry_nil] at held
    simp only [pushFirst, held, Option.getD_none, Entry.new, Map.lookup_insert,
      listEntry_cons]
  | cons first list =>
    rw [listEntry_cons] at held
    simp only [pushFirst, held, Option.getD_some, Map.lookup_insert, listEntry_cons]

namespace State

/-- The loop over a queue comes to `serving` it. -/
theorem serve_spec (key : Bytes) (version : Nat) (queue : List Nat) (state : State)
    (list : List Bytes) (held : state.entries[key]? = listEntry list version) :
    ∃ entries : Entries,
      (∀ other : Bytes, entries[other]? =
        if other = key then
          listEntry (serving state.oneshots queue list).list version
        else state.entries[other]?) ∧
      state.serve key version queue =
        { state with
          entries
          oneshots := (serving state.oneshots queue list).oneshots
          waiters :=
            if (serving state.oneshots queue list).queue.isEmpty then
              state.waiters.erase key
            else state.waiters.insert key (serving state.oneshots queue list).queue } := by
  induction queue generalizing state list with
  | nil =>
    refine ⟨state.entries, ?_, rfl⟩
    intro other
    split
    · rename_i same
      rw [same, held]
      rfl
    · rfl
  | cons waiter queue ih =>
    cases list with
    | nil =>
      refine ⟨state.entries, ?_, ?_⟩
      · intro other
        split
        · rename_i same
          rw [same, held]
          rfl
        · rfl
      · have nothing : popFirst state.entries key version = none := by
          simp only [popFirst, held, listEntry_nil]
        simp only [serve, nothing, serving]
        rfl
    | cons element list =>
      obtain ⟨left, popped, leftHeld⟩ := popFirst_listEntry version held
      simp only [serve, popped, serving]
      split
      · -- the client is still there and takes the element
        obtain ⟨entries, lookups, served⟩ :=
          ih { state with
                entries := left
                oneshots := state.oneshots.insert waiter (.handed element) }
            list (by rw [leftHeld, if_pos rfl])
        refine ⟨entries, ?_, served⟩
        intro other
        rw [lookups]
        split
        · rfl
        · rw [leftHeld, if_neg ‹_›]
      · -- the client has gone, and the element is back where it was
        have back := pushFirst_listEntry element
          (by rw [leftHeld, if_pos rfl] : left[key]? = listEntry list version)
        obtain ⟨entries, lookups, served⟩ :=
          ih { state with entries := pushFirst left key element version }
            (element :: list) (by rw [back, if_pos rfl])
        refine ⟨entries, ?_, served⟩
        intro other
        rw [lookups]
        split
        · rfl
        · rw [back, if_neg ‹_›, leftHeld, if_neg ‹_›]

/-- What is left of the state once a list has been put at a key and those
waiting on the key have been served from it. -/
structure Served (key : Bytes) (list : List Bytes) (version : Nat)
    (before after : State) : Prop where
  entries : ∀ other : Bytes, after.entries[other]? =
    if other = key then
      listEntry (serving before.oneshots (before.waiters[key]?.getD []) list).list version
    else before.entries[other]?
  waiters : ∀ other : Bytes, after.waiters[other]?.getD [] =
    if other = key then
      (serving before.oneshots (before.waiters[key]?.getD []) list).queue
    else before.waiters[other]?.getD []
  oneshots : after.oneshots =
    (serving before.oneshots (before.waiters[key]?.getD []) list).oneshots
  handles : after.handles = before.handles

theorem wakeWaiters_served {key : Bytes} {version : Nat} {state : State}
    {list : List Bytes} (held : state.entries[key]? = listEntry list version) :
    Served key list version state (state.wakeWaiters key version) := by
  cases queued : state.waiters[key]? with
  | none =>
    simp only [wakeWaiters, queued]
    refine ⟨?_, ?_, by simp only [queued, Option.getD_none, serving], rfl⟩
    · intro other
      split
      · rename_i same
        rw [same, held, queued]
        rfl
      · rfl
    · intro other
      split
      · rename_i same
        rw [same, queued]
        rfl
      · rfl
  | some queue =>
    obtain ⟨entries, lookups, served⟩ := serve_spec key version queue state list held
    simp only [wakeWaiters, queued, served]
    refine ⟨?_, ?_, by simp only [queued, Option.getD_some], rfl⟩
    · simpa only [queued, Option.getD_some] using lookups
    · intro other
      simp only [queued, Option.getD_some]
      split
      · rename_i empty
        rw [Map.lookup_erase]
        split
        · rw [List.isEmpty_iff.mp empty]
          rfl
        · rfl
      · rw [Map.lookup_insert]
        split <;> rfl

@[simp] theorem wakeWaiters_changes (state : State) (key : Bytes) (version : Nat) :
    (state.wakeWaiters key version).changes = state.changes := by
  have served (queue : List Nat) (state : State) :
      (state.serve key version queue).changes = state.changes := by
    induction queue generalizing state with
    | nil => rfl
    | cons waiter queue ih =>
      simp only [serve]
      split
      · rfl
      · split <;> rw [ih]
  unfold wakeWaiters
  split
  · rfl
  · exact served _ _

theorem pushOnto_left (elements list : List Bytes) :
    pushOnto .left elements list = elements.reverse ++ list := by
  simp [pushOnto]

theorem pushOnto_ne_nil {elements : List Bytes} (nonempty : elements ≠ [])
    (side : Side) (list : List Bytes) : pushOnto side elements list ≠ [] := by
  cases side with
  | right => simp [pushOnto, nonempty]
  | left => simp [pushOnto_left, nonempty]

theorem listEntry_of_ne_nil {list : List Bytes} (nonempty : list ≠ []) (version : Nat) :
    listEntry list version = some ⟨.list list, none, version⟩ := by
  simp [listEntry, nonempty]

variable {clock : Clock} {state : State} {key : Bytes}

/-- A push onto a key that holds no list is refused and changes nothing; any
other leaves at the key what those waiting did not take. -/
theorem push_spec {elements : List Bytes} (nonempty : elements ≠ []) (side : Side)
    (undated : ∀ entry list, state.live clock.now key = some entry →
      entry.data = .list list → entry.expiresAt = none) :
    (∃ error, (state.push clock.now key elements side).2 = .error error ∧
      Acts clock key (.push elements side) state
        (state.push clock.now key elements side).1 (.error error) ∧
      (state.push clock.now key elements side).1.oneshots = state.oneshots ∧
      (state.push clock.now key elements side).1.waiters = state.waiters ∧
      (state.push clock.now key elements side).1.handles = state.handles) ∨
    ∃ old, Cell.list ((state.live clock.now key).map Entry.cell) = .ok old ∧
      (state.push clock.now key elements side).2 =
        .ok (pushOnto side elements old).length ∧
      (state.push clock.now key elements side).1.changes = state.changes + 1 ∧
      Served key (pushOnto side elements old) (state.changes + 1) state
        (state.push clock.now key elements side).1 := by
  obtain ⟨pushed, acts, sameWaiters, sameOneshots, sameHandles, pushes⟩ :=
    @push_acts clock state key elements side
  cases replied : (state.push clock.now key elements side).2 with
  | error error =>
    rw [replied] at acts pushes
    simp only at pushes
    rw [pushes]
    exact .inl ⟨error, rfl, acts, sameOneshots, sameWaiters, sameHandles⟩
  | ok length =>
    rw [replied] at acts pushes
    simp only at pushes
    obtain ⟨cell, acted, stored⟩ := acts.cell
    obtain ⟨old, found, rfl, rfl⟩ :
        ∃ old, Cell.list ((state.live clock.now key).map Entry.cell) = .ok old ∧
          cell = some ⟨.list (pushOnto side elements old), none⟩ ∧
          length = (pushOnto side elements old).length := by
      simp only [KeyOp.act, Option.some.injEq] at acted
      cases held : state.live clock.now key with
      | none =>
        simp only [held, Option.map_none, Cell.push, Prod.mk.injEq,
          Except.ok.injEq] at acted
        exact ⟨[], rfl, acted.1.symm, acted.2.symm⟩
      | some entry =>
        obtain ⟨data, expiresAt, version⟩ := entry
        cases data with
        | list list =>
          obtain rfl : expiresAt = none := undated _ list held rfl
          simp only [held, Option.map_some, Entry.cell, Cell.push, Prod.mk.injEq,
            Except.ok.injEq] at acted
          exact ⟨list, rfl, acted.1.symm, acted.2.symm⟩
        | string _ | stream _ | sortedSet _ => simp [held, Entry.cell, Cell.push] at acted
    rcases stored with stored | ⟨-, unwritten, -⟩
    · have held : pushed.entries[key]? =
          listEntry (pushOnto side elements old) (state.changes + 1) := by
        rw [stored, listEntry_of_ne_nil (pushOnto_ne_nil nonempty side old)]
        rfl
      have served := wakeWaiters_served held
      rw [← pushes] at served
      refine .inr ⟨old, found, rfl, ?_, ?_, ?_, ?_, ?_⟩
      · rw [pushes, wakeWaiters_changes]
        exact acts.stamped rfl
      · intro other
        rw [served.entries, sameOneshots, sameWaiters]
        split
        · rfl
        · exact acts.frame other ‹_›
      · simpa only [sameOneshots, sameWaiters] using served.waiters
      · simpa only [sameOneshots, sameWaiters] using served.oneshots
      · rw [served.handles, sameHandles]
    · simp [KeyOp.wrote] at unwritten

end State

end RedisServer
