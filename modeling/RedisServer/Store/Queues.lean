import RedisServer.Store.Blocking

/-!
# The queues of those who wait for an element

What one call may do to the queues of all keys: a blocking pop that finds nothing joins
one, a push serves one, and every other call leaves them alone.  No client is in a
queue twice.
-/

namespace RedisServer

variable {before after : State} {call : StoreCall} {key : Bytes} {list : List Bytes}
  {reply : call.Reply}

/-- The end a call handed out to wait on for an element. -/
def StoreCall.toldToWait : (call : StoreCall) → call.Reply → Option Nat
  | .blpop _, .ok (.waiting receiver) => some receiver
  | _, _ => none

/-- What a call has pushed, and where. -/
def StoreCall.pushes : (call : StoreCall) → call.Reply → Option (Bytes × List Bytes × Side)
  | .on key (.push elements side), .ok _ => some (key, elements, side)
  | _, _ => none

theorem StoreCall.pushes_eq_none {op : KeyOp} (noPush : ∀ elements side, op ≠ .push elements side)
    (key : Bytes) (reply : op.Reply) : (StoreCall.on key op).pushes reply = none := by
  cases op with
  | push elements side => exact absurd rfl (noPush elements side)
  | _ => rfl

namespace State

/-- The list at a key. -/
def listAt (state : State) (key : Bytes) : List Bytes :=
  match state.entries[key]? with
  | some { data := .list list, .. } => list
  | _ => []

/-- Those queued on a key. -/
def queueAt (state : State) (key : Bytes) : List Nat := state.waiters[key]?.getD []

/-- Those on a key who still wait, as far as so many elements reach. -/
def reached (state : State) (key : Bytes) (count : Nat) : List Nat :=
  ((state.queueAt key).filter (waits state.oneshots)).take count

theorem listAt_of_listEntry {state : State} {version : Nat}
    (held : state.entries[key]? = listEntry list version) : state.listAt key = list := by
  cases list with
  | nil | cons _ _ => simp [listAt, held]

/-- A list lapses never, so that the list a call finds is the list there is. -/
theorem Proper.listAt_eq {state : State} (proper : state.Proper) {now : Instant}
    (found : Cell.list ((state.live now key).map Entry.cell) = .ok list) :
    state.listAt key = list := by
  cases held : state.entries[key]? with
  | none =>
    simp only [live, held, unexpired, Option.map_none, Cell.list, Except.ok.injEq] at found
    simp [listAt, held, found]
  | some entry =>
    have isProper := proper.cells key entry held
    obtain ⟨data, expiresAt, version⟩ := entry
    cases data with
    | list elements =>
      obtain rfl : expiresAt = none := isProper.expiresAt_eq_none rfl
      simp only [live, held, unexpired, Entry.hasExpired, Bool.false_eq_true, if_false,
        Option.map_some, Entry.cell, Cell.list, Except.ok.injEq] at found
      simp [listAt, held, found]
    | _ =>
      simp only [live, held, unexpired] at found
      split at found
      · simp only [Option.map_none, Cell.list, Except.ok.injEq] at found
        simp [listAt, held, found]
      · simp [Entry.cell, Cell.list] at found

/-- What a call may do to those who wait. -/
inductive Queues (before after : State) : (call : StoreCall) → call.Reply → Prop where
  | aside {call : StoreCall} {reply : call.Reply} (unpushed : call.pushes reply = none)
      (waiters : after.waiters = before.waiters) (oneshots : after.oneshots = before.oneshots)
      (handles : before.handles ≤ after.handles) : Queues before after call reply
  | joined (key : Bytes)
      (waiters : after.waiters = before.waiters.insert key
        ((before.queueAt key).filter (fun waiter => before.oneshots[waiter]? ≠ some .closed) ++
          [before.handles]))
      (oneshots : after.oneshots = before.oneshots.insert before.handles .waiting)
      (handles : after.handles = before.handles + 1) :
      Queues before after (.blpop key) (.ok (.waiting before.handles))
  | served (key : Bytes) (elements : List Bytes) (side : Side) (version length : Nat)
      (served : Served key (pushOnto side elements (before.listAt key)) version before after) :
      Queues before after (.on key (.push elements side)) (.ok length)

theorem Looks.queues {now : Instant} (unpushed : call.pushes reply = none)
    (looks : Looks now before after) :
    Queues before after call reply :=
  .aside unpushed looks.waiters looks.oneshots looks.handles

theorem perform_queues {clock : Clock} (proper : before.Proper) (called : call.Proper)
    (performed : before.perform clock call = some (after, reply)) :
    Queues before after call reply := by
  cases call with
  | on key op =>
    by_cases push : ∃ elements side, op = .push elements side
    · obtain ⟨elements, side, rfl⟩ := push
      simp only [perform, performOn, Option.some.injEq] at performed
      rcases push_spec called side fun _ _ => live_undated proper with
        ⟨error, replied, -, oneshots, waiters, handles⟩ | ⟨old, isOld, replied, -, served⟩
      · rw [performed] at replied oneshots waiters handles
        simp only at replied
        subst replied
        exact .aside rfl waiters oneshots handles.ge
      · rw [performed] at replied served
        simp only at replied served
        subst replied
        rw [← proper.listAt_eq isOld] at served
        exact .served key elements side _ _ served
    · have noPush (elements : List Bytes) (side : Side) : op ≠ .push elements side :=
        fun isPush => push ⟨elements, side, isPush⟩
      obtain ⟨waiters, oneshots, handles⟩ := performOn_waiters noPush performed
      exact .aside (StoreCall.pushes_eq_none noPush key reply) waiters oneshots handles.ge
  | blpop key =>
    simp only [perform] at performed
    rcases @blpop_spec clock.now before proper key with
      ⟨entry, -, -, popped⟩ |
        ⟨element, list, -, next, popped, -, -, waiters, oneshots, handles⟩ | ⟨-, popped⟩
    all_goals
      rw [popped, Option.some.injEq, Prod.mk.injEq] at performed
      obtain ⟨rfl, rfl⟩ := performed
    · exact (looked_looks clock.now before key).queues rfl
    · exact .aside rfl waiters oneshots handles.ge
    · exact .joined key rfl rfl rfl
  | _ => exact (perform_looks performed True.intro).queues rfl

/-- Nobody is in a queue twice, and only ends that have been handed out are waited on. -/
structure Lined (state : State) : Prop where
  nodup : ∀ key, (state.queueAt key).Nodup
  made : ∀ key, ∀ waiter ∈ state.queueAt key, waiter < state.handles
  known : ∀ (receiver : Nat) (oneshot : Oneshot),
    state.oneshots[receiver]? = some oneshot → receiver < state.handles

theorem Queues.lined (queues : Queues before after call reply) (lined : before.Lined) :
    after.Lined := by
  cases queues with
  | aside unpushed waiters oneshots handles =>
    have same (key : Bytes) : after.queueAt key = before.queueAt key := by
      simp only [queueAt, waiters]
    refine ⟨fun key => ?_, fun key waiter member => ?_, fun receiver oneshot found => ?_⟩
    · rw [same]
      exact lined.nodup key
    · rw [same] at member
      exact (lined.made key waiter member).trans_le handles
    · rw [oneshots] at found
      exact (lined.known receiver oneshot found).trans_le handles
  | joined target waiters oneshots handles =>
    have queue (key : Bytes) : after.queueAt key =
        if key = target then (before.queueAt target).filter
          (fun waiter => before.oneshots[waiter]? ≠ some .closed) ++ [before.handles]
        else before.queueAt key := by
      simp only [queueAt, waiters, Map.lookup_insert]
      split <;> rfl
    refine ⟨fun key => ?_, fun key waiter member => ?_, fun receiver oneshot found => ?_⟩
    · rw [queue]
      split
      · refine List.nodup_append.mpr ⟨(lined.nodup target).filter _, List.nodup_singleton _, ?_⟩
        intro waiter member new isNew
        rw [List.mem_singleton.mp isNew]
        exact Nat.ne_of_lt (lined.made target waiter (List.mem_of_mem_filter member))
      · exact lined.nodup key
    · rw [handles]
      rw [queue] at member
      split at member
      · rcases List.mem_append.mp member with earlier | isNew
        · exact Nat.lt_succ_of_lt (lined.made target waiter (List.mem_of_mem_filter earlier))
        · rw [List.mem_singleton.mp isNew]
          exact Nat.lt_succ_self _
      · exact Nat.lt_succ_of_lt (lined.made key waiter member)
    · rw [handles]
      rw [oneshots, Map.lookup_insert] at found
      split at found
      · rename_i isNew
        exact isNew ▸ Nat.lt_succ_self _
      · exact Nat.lt_succ_of_lt (lined.known receiver oneshot found)
  | served target elements side version length served =>
    have shorter (key : Bytes) : after.queueAt key <:+ before.queueAt key := by
      rw [queueAt, served.waiters]
      split
      · rename_i same
        rw [same]
        exact serving_queue_suffix _ _ _
      · exact List.suffix_refl _
    refine ⟨fun key => (lined.nodup key).sublist (shorter key).sublist,
      fun key waiter member => ?_, fun receiver oneshot found => ?_⟩
    · rw [served.handles]
      exact lined.made key waiter ((shorter key).subset member)
    · rw [served.handles]
      cases waiting : waits before.oneshots receiver with
      | true => exact lined.known receiver .waiting (by simpa [waits] using waiting)
      | false =>
        rw [served.oneshots, serving_frame _ _ _ _ (.inr waiting)] at found
        exact lined.known receiver oneshot found

/-- A push hands what it can to those who wait, the longest waiting first, and leaves the
rest in the list. -/
theorem Served.handsOut {version : Nat} (served : Served key list version before after)
    (nodup : (before.queueAt key).Nodup) :
    ∃ handed : List (Nat × Bytes),
      (∀ client, handedTo after.oneshots client =
        (handed.lookup client).or (handedTo before.oneshots client)) ∧
      handed.map Prod.fst = before.reached key list.length ∧
      handed.map Prod.snd ++ after.listAt key = list := by
  obtain ⟨items, -, lookups⟩ := serving_settle before.oneshots nodup list
  refine ⟨(Handover.settle ((before.queueAt key).filter (waits before.oneshots)) list).served,
    fun client => ?_, Handover.settle_served _ _, ?_⟩
  · have found : after.oneshots[client]? = _ := served.oneshots ▸ lookups client
    simp only [handedTo, found]
    cases List.lookup client (Handover.settle ((before.queueAt key).filter
      (waits before.oneshots)) list).served <;> simp
  · have held := served.entries key
    rw [if_pos rfl] at held
    rw [listAt_of_listEntry held]
    exact (congrArg _ items).trans (Handover.settle_items _ _)

/-- Whoever waits after a call has waited before it, or was told to by it. -/
theorem Queues.waited (queues : Queues before after call reply) {receiver : Nat}
    (waiting : after.oneshots[receiver]? = some .waiting) :
    before.oneshots[receiver]? = some .waiting ∨
      call.toldToWait reply = some receiver := by
  cases queues with
  | aside unpushed waiters oneshots handles => exact .inl (oneshots ▸ waiting)
  | joined key waiters oneshots handles =>
    rw [oneshots, Map.lookup_insert] at waiting
    split at waiting
    · rename_i isNew
      subst isNew
      exact .inr rfl
    · exact .inl waiting
  | served key elements side version length served =>
    left
    rw [served.oneshots] at waiting
    by_cases waited : waits before.oneshots receiver = true
    · simpa [waits] using waited
    · rwa [serving_frame _ _ _ _ (.inr (by simpa using waited))] at waiting

end State

end RedisServer
