import RedisServer.Concurrency.Alert
import RedisServer.Store.Lingering

/-!
# Who the wakers under a key belong to

Whatever the connections do, a waker is held on to by a connection that waits on it, and
by no one once the connection has stopped.  What a reader finds under its keys when it is
registered is therefore the wakers of those who still wait, apart from the ones whose
readers have gone and which were kept in two places.
-/

namespace RedisServer

variable {waker : Nat} {reads : List (Bytes × EntryId)} {stage : Stage} {server : Server}
  {what : Happening}

/-- Some connection waits to be told through a waker. -/
def Pool.Waits (pool : Pool) (waker : Nat) : Prop :=
  ∃ (id : Nat) (asked : Value) (deadline : Option Instant)
    (resume : Bool → Prog (Answer × Client)),
    pool.stages[id]? = some (.running asked (.call (.notified waker deadline) resume))

section

variable [Platform]

omit [Platform] in
/-- A connection that was handed a waker is about to wait on it. -/
theorem Stage.Parks.waits (parks : stage.Parks (some (.onStreams waker reads))) :
    ∃ (asked : Value) (deadline : Option Instant) (resume : Bool → Prog (Answer × Client)),
      stage = .running asked (.call (.notified waker deadline) resume) := by
  cases stage with
  | running asked program =>
    cases program with
    | ret answered => cases parks
    | call request resume =>
      obtain ⟨deadline, rfl⟩ := parks.1
      exact ⟨asked, deadline, resume, rfl⟩
  | _ => cases parks

/-- A connection that waits on a waker lets go of it on its next turn. -/
theorem Stage.Moves.releases {id : Nat} {world after : World} {moved : Stage} {move : Move}
    (parks : stage.Parks (some (.onStreams waker reads)))
    (moves : Stage.Moves server id world stage move moved after what) :
    after.store = world.store.release waker := by
  obtain ⟨asked, deadline, resume, rfl⟩ := parks.waits
  cases moves with
  | call performed =>
    have treated := perform_treated performed
    generalize after.store = store at treated ⊢
    cases treated with
    | released => rfl
    | aside apart => cases apart
  | panic performed =>
    simp only [World.perform] at performed
    repeat' split at performed
    all_goals cases performed

omit [Platform] in
theorem State.not_holds_release (state : State) (waker : Nat) :
    ¬ (state.release waker).holds waker := by
  rintro ⟨permit, held⟩
  simp [State.release] at held

omit [Platform] in
theorem parks_of_watches {call : StoreCall} {reply : call.Reply}
    (watches : call.watches reply = some (waker, reads)) :
    parking.next none (.store call) reply = some (.onStreams waker reads) := by
  cases call with
  | xreadOrWatch others =>
    rcases reply with _ | _ | other <;> cases watches
    rfl
  | _ => cases watches

/-- A turn hands a waker to no one but the connection whose turn it is, and a new one. -/
theorem Stage.Moves.hands {id : Nat} {world after : World} {moved : Stage} {move : Move}
    {parked : Option Parked} (parks : stage.Parks parked) (proper : world.store.Proper)
    (called : ∀ env call reply, what = .called env (.store call) reply → call.Proper)
    (moves : Stage.Moves server id world stage move moved after what) :
    (∀ waker, after.store.holds waker →
      world.store.holds waker ∨ ∃ reads, what.parks = some (.onStreams waker reads)) ∧
    (world.store.Fresh → after.store.Fresh) := by
  cases moves.stored with
  | asked performed =>
    have called := called _ _ _ rfl
    refine ⟨fun waker held => ?_, fun fresh => fresh.perform proper called performed⟩
    rcases State.perform_holds proper called performed held with held | ⟨reads, watches⟩
    · exact .inl held
    · exact .inr ⟨reads, parks_of_watches watches⟩
  | aside notAsked entries changes =>
    cases moves.stirred parks proper called with
    | asked stirs => cases notAsked
    | aside unparked entries watchers wakers handles =>
      refine ⟨fun waker held => .inl (by rwa [State.holds, wakers] at held), fun fresh => ?_⟩
      simpa only [State.Fresh, State.watchersAt, watchers, handles] using fresh
    | released other reads unparked isParked isAfter =>
      rw [isAfter]
      refine ⟨fun waker held => ?_, fun fresh => fresh⟩
      obtain ⟨permit, held⟩ := held
      rw [State.release, Map.lookup_insert] at held
      split at held
      · cases held
      · exact .inl ⟨permit, held⟩

/-- Every waker that is held on to is waited on. -/
structure Pool.Tended (pool : Pool) : Prop where
  alert : pool.Alert
  fresh : pool.world.store.Fresh
  held : ∀ waker, pool.world.store.holds waker →
    ∃ id reads, parkedOn id pool.history = some (.onStreams waker reads)

omit [Platform] in
theorem Pool.tended_start {store : State} (proper : store.Proper) (unwatched : store.watchers = ∅)
    (unheld : store.wakers = ∅) (log : Bytes) : (Pool.start store log).Tended where
  alert := Pool.alert_start proper log
  fresh key waker member := by
    change waker ∈ store.watchersAt key at member
    simp [State.watchersAt, unwatched] at member
  held waker held := by
    obtain ⟨permit, held⟩ := held
    change store.wakers[waker]? = _ at held
    simp [unheld] at held

theorem Pool.Tended.step {server : Server} {pool next : Pool} {choice : Choice}
    (tended : pool.Tended) (stepped : pool.step server choice = some next) : next.Tended := by
  have alert := tended.alert.step stepped
  obtain ⟨rfl, rfl⟩ | ⟨turn, move, stage, moved, world, what, rfl, isStage, moves, rfl⟩ :=
    Pool.step_cases stepped
  · refine ⟨alert, tended.fresh, fun waker held => ?_⟩
    obtain ⟨id, reads, isParked⟩ := tended.held waker held
    refine ⟨id, reads, ?_⟩
    rw [Pool.accept, parkedOn_concat, if_neg]
    · exact isParked
    · intro isNew
      rw [tended.alert.parks.unborn id isNew.le] at isParked
      cases isParked
  · have parks := tended.alert.parks.stages turn stage isStage
    obtain ⟨hands, fresh⟩ := moves.hands parks tended.alert.proper.store
      (tended.alert.proper.called isStage moves)
    refine ⟨alert, fresh tended.fresh, fun waker held => ?_⟩
    rcases hands waker held with wasHeld | ⟨reads, isParked⟩
    · obtain ⟨id, reads, isParked⟩ := tended.held waker wasHeld
      refine ⟨id, reads, ?_⟩
      rw [parkedOn_concat, if_neg]
      · exact isParked
      · intro isTurn
        -- the one who waited on it has let go of it
        subst isTurn
        rw [isParked] at parks
        rw [moves.releases parks] at held
        exact State.not_holds_release _ _ held
    · exact ⟨turn, reads, by rw [parkedOn_concat, if_pos rfl, isParked]⟩

theorem Pool.tended_of_run {store : State} (proper : store.Proper) (unwatched : store.watchers = ∅)
    (unheld : store.wakers = ∅) {log : Bytes} {choices : List Choice} {pool : Pool}
    (ran : Run.after (Pool.step server) (.start store log) choices = some pool) : pool.Tended :=
  Run.invariant_always (fun pool => pool.Tended) (fun _ _ _ tended => tended.step)
    (Pool.tended_start proper unwatched unheld log) ran

omit [Platform] in
/-- A waker is held on to just while a connection waits on it. -/
theorem Pool.Tended.holds_iff {pool : Pool} (tended : pool.Tended) (waker : Nat) :
    pool.world.store.holds waker ↔ pool.Waits waker := by
  constructor
  · intro held
    obtain ⟨id, reads, isParked⟩ := tended.held waker held
    have within : id < pool.stages.length := by
      by_contra beyond
      rw [tended.alert.parks.unborn id (Nat.le_of_not_lt beyond)] at isParked
      cases isParked
    have parks := tended.alert.parks.stages id _ (List.getElem?_eq_getElem within)
    rw [isParked] at parks
    obtain ⟨asked, deadline, resume, isStage⟩ := parks.waits
    exact ⟨id, asked, deadline, resume, by rw [List.getElem?_eq_getElem within, isStage]⟩
  · rintro ⟨id, asked, deadline, resume, isStage⟩
    obtain ⟨reads, isParked⟩ := parked_of_notified (tended.alert.parks.stages id _ isStage).1
    obtain ⟨-, permit, held, -⟩ := tended.alert.alert id _ isParked
    exact ⟨permit, held⟩

/-- What a step asked of the store is what the store did. -/
theorem performed_of_step {pool next : Pool} {choice : Choice} {moment : Moment} {env : Env}
    {call : StoreCall} {reply : call.Reply} (stepped : pool.step server choice = some next)
    (happened : next.history = pool.history ++ [moment])
    (called : moment.what = .called env (.store call) reply) :
    pool.world.store.perform env.clock call = some (next.world.store, reply) := by
  obtain ⟨rfl, rfl⟩ | ⟨turn, move, stage, moved, world, what, rfl, isStage, moves, rfl⟩ :=
    Pool.step_cases stepped
  · cases List.append_cancel_left happened
    cases called
  · cases List.append_cancel_left happened
    subst called
    cases moves.stored with
    | asked performed => exact performed
    | aside notAsked => cases notAsked

/-- Registering a reader clears the wakers of readers that have gone from under its keys, if and
only if none of them was left in two places. -/
theorem readers_leave_nothing_iff (server : Server) (store : State) (log : Bytes)
    (proper : store.Proper) (unwatched : store.watchers = ∅) (unheld : store.wakers = ∅)
    (choices : List Choice) (choice : Choice) (pool next : Pool)
    (ran : Run.after (Pool.step server) (.start store log) choices = some pool)
    (stepped : pool.step server choice = some next)
    (moment : Moment) (env : Env) (reads : List (Bytes × EntryId)) (waker : Nat)
    (happened : next.history = pool.history ++ [moment])
    (registered : moment.what = .called env (.store (.xreadOrWatch reads)) (.ok (.waiting waker))) :
    -- right after a reader is registered, the other wakers under its keys are waited on
    (∀ read ∈ reads, ∀ other ∈ next.world.store.watchersAt read.1,
      other ≠ waker → next.Waits other) ↔
    -- just when none it finds there was left in two places by a reader that has gone
    ∀ read ∈ reads, ∀ other ∈ pool.world.store.watchersAt read.1,
      pool.Waits other ∨ ¬ pool.world.store.KeptTwice other := by
  have tended := Pool.tended_of_run proper unwatched unheld ran
  have tendedNext := tended.step stepped
  simp only [← tended.holds_iff, ← tendedNext.holds_iff]
  have performed := performed_of_step stepped happened registered
  exact State.registered_holds_iff tended.fresh (Option.some.inj performed)

end

/-! ## A reader that has gone -/

theorem called_of_parks (parks : what.parks = some (.onStreams waker reads)) :
    ∃ env, what = .called env (.store (.xreadOrWatch reads)) (.ok (.waiting waker)) := by
  cases what with
  | called env call reply =>
    cases call with
    | store call =>
      have watches := watches_of_parks parks
      cases call with
      | xreadOrWatch others =>
        rcases reply with _ | _ | other <;> cases watches
        exact ⟨env, rfl⟩
      | _ => cases watches
    | _ => cases parks
  | _ => cases parks

/-- The turn in which a reader of one stream is registered, with what is seen before and
after it. -/
theorem registering {choices : List Choice} {id waker : Nat} {key : Bytes}
    {sees : Pool → Pool → Bool}
    (seen : ((Run.after (@Pool.step .ascii { rounds := 1 }) (.start {} []) choices).any fun pool =>
      (@Pool.step .ascii { rounds := 1 } pool (.turn id (.call {}))).any fun next =>
        match (next.history.getLast?.bind fun moment => moment.what.parks) with
        | some (.onStreams handed [(read, _)]) =>
          handed == waker && read == key && sees pool next
        | _ => false) = true) :
    ∃ pool next moment env after,
      Run.after (@Pool.step .ascii { rounds := 1 }) (.start {} []) choices = some pool ∧
      @Pool.step .ascii { rounds := 1 } pool (.turn id (.call {})) = some next ∧
      next.history = pool.history ++ [moment] ∧
      moment.what = .called env (.store (.xreadOrWatch [(key, after)])) (.ok (.waiting waker)) ∧
      sees pool next = true := by
  obtain ⟨pool, ran, seen⟩ := (Option.any_eq_true _ _).mp seen
  obtain ⟨next, stepped, seen⟩ := (Option.any_eq_true _ _).mp seen
  obtain ⟨moment, happened⟩ := @Pool.history_of_step .ascii _ _ _ _ stepped
  simp only [happened, List.getLast?_append, List.getLast?_singleton, Option.some_or,
    Option.bind_some] at seen
  split at seen
  · rename_i handed read after parks
    simp only [Bool.and_eq_true, beq_iff_eq] at seen
    obtain ⟨⟨rfl, rfl⟩, sees⟩ := seen
    obtain ⟨env, called⟩ := called_of_parks parks
    exact ⟨pool, next, moment, env, after, ran, stepped, happened, called, sees⟩
  · cases seen

theorem State.not_holds_of_released {state : State} {permit : Bool}
    (released : state.wakers[waker]? = some ⟨permit, false⟩) : ¬ state.holds waker := by
  rintro ⟨other, held⟩
  rw [released] at held
  cases held

/-- Two clients wait on a stream, the first of them on another one too.  It is told of that
one and answered, and a third client is about to wait on the stream. -/
def outlivedOnce : List Choice :=
  [.accept, .accept, .accept, .accept] ++
    Choice.begun 0 ["XREAD", "BLOCK", "0", "STREAMS", "r", "s", "0-0", "0-0"] 2 ++
    Choice.begun 2 ["XREAD", "BLOCK", "0", "STREAMS", "s", "0-0"] 2 ++
    Choice.command 1 ["XADD", "r", "1-1", "field", "value"] 4 ++
    [.turn 0 (.call {}), .turn 0 (.call {}), .turn 0 .answer] ++
    Choice.begun 3 ["XREAD", "BLOCK", "0", "STREAMS", "s", "0-0"] 1

/-- The waker of the client that was answered is cleared away, and that of the other one
stays. -/
theorem readers_leave_nothing_cleared :
    ∃ pool next,
      Run.after (@Pool.step .ascii { rounds := 1 }) (.start {} []) outlivedOnce = some pool ∧
      @Pool.step .ascii { rounds := 1 } pool (.turn 3 (.call {})) = some next ∧
      pool.world.store.watchersAt (utf8 "s") = [0, 1] ∧ ¬ pool.Waits 0 ∧
      next.world.store.watchersAt (utf8 "s") = [1, 2] ∧ next.Waits 1 := by
  obtain ⟨pool, next, moment, env, after, ran, stepped, happened, called, seen⟩ :=
    @registering outlivedOnce 3 2 (utf8 "s")
      (fun pool next => let store := pool.world.store
        store.watchersAt (utf8 "s") == [0, 1] && store.wakers[0]? == some ⟨false, false⟩ &&
        store.strongCount store.watchers 0 == 1 && store.wakers[1]? == some ⟨false, true⟩ &&
        next.world.store.watchersAt (utf8 "s") == [1, 2])
      (by decide +kernel)
  simp only [Bool.and_eq_true, beq_iff_eq] at seen
  obtain ⟨⟨⟨⟨before, released⟩, once⟩, held⟩, registered⟩ := seen
  have tended := @Pool.tended_of_run _ .ascii _ State.proper_empty rfl rfl _ _ _ ran
  have gone := State.not_holds_of_released released
  have nothing := (@readers_leave_nothing_iff .ascii { rounds := 1 } {} [] State.proper_empty rfl
    rfl outlivedOnce _ pool next ran stepped moment env _ 2 happened called).mpr <| by
      simp only [List.forall_mem_singleton, before, List.forall_mem_cons]
      refine ⟨.inr ?_, .inl ((tended.holds_iff 1).mp ⟨false, held⟩)⟩
      rw [← State.one_lt_strongCount_iff gone, once]
      exact Nat.lt_irrefl 1
  refine ⟨pool, next, ran, stepped, before, (tended.holds_iff 0).not.mp gone, registered, ?_⟩
  exact nothing _ (List.mem_singleton_self _) 1 (by simp [registered]) (by decide)

/-- A client that waits on three streams is told of the first of them and answered, and
another is about to wait on the second. -/
def outlived : List Choice :=
  [.accept, .accept, .accept] ++
    Choice.begun 0 ["XREAD", "BLOCK", "0", "STREAMS", "r", "s", "t", "0-0", "0-0", "0-0"] 2 ++
    Choice.command 1 ["XADD", "r", "1-1", "field", "value"] 4 ++
    [.turn 0 (.call {}), .turn 0 (.call {}), .turn 0 .answer] ++
    Choice.begun 2 ["XREAD", "BLOCK", "0", "STREAMS", "s", "0-0"] 1

theorem answered_reader_leaves_waker :
    ∃ pool next moment env after,
      Run.after (@Pool.step .ascii { rounds := 1 }) (.start {} []) outlived = some pool ∧
      @Pool.step .ascii { rounds := 1 } pool (.turn 2 (.call {})) = some next ∧
      next.history = pool.history ++ [moment] ∧
      moment.what = .called env (.store (.xreadOrWatch [(utf8 "s", after)])) (.ok (.waiting 1)) ∧
      0 ∈ next.world.store.watchersAt (utf8 "s") ∧ ¬ next.Waits 0 := by
  obtain ⟨pool, next, moment, env, after, ran, stepped, happened, called, seen⟩ :=
    @registering outlived 2 1 (utf8 "s")
      (fun _ next => next.world.store.watchersAt (utf8 "s") == [0, 1] &&
        next.world.store.wakers[0]? == some ⟨false, false⟩)
      (by decide +kernel)
  simp only [Bool.and_eq_true, beq_iff_eq] at seen
  have tended := @Pool.tended_of_run _ .ascii _ State.proper_empty rfl rfl _ _ _ ran
  refine ⟨pool, next, moment, env, after, ran, stepped, happened, called, by simp [seen.1], ?_⟩
  rw [← (@Pool.Tended.step .ascii _ _ _ _ tended stepped).holds_iff]
  exact State.not_holds_of_released seen.2

end RedisServer
