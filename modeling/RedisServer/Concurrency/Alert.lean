import RedisServer.Concurrency.Parked
import RedisServer.Concurrency.Storing
import RedisServer.Store.Watchers

/-!
# Readers that wait for a stream to grow

A blocking read that found nothing sleeps until its waker is told.  As long as it has
not been told, its waker is under every key it reads and none of the streams has
anything for it, whatever the other connections read, append and let go of.
-/

namespace RedisServer

variable {waker : Nat} {parked : Option Parked} {what : Happening} {reads : List (Bytes × EntryId)}

/-- Whoever sleeps has nothing to read, and will be told of the next entry. -/
def Parked.Alert (state : State) : Parked → Prop
  | .onList _ => True
  | .onStreams waker reads =>
    waker < state.handles ∧ ∃ permit, state.wakers[waker]? = some ⟨permit, true⟩ ∧
      (permit = false → ∀ read ∈ reads, waker ∈ state.watchersAt read.1 ∧
        ∀ entry ∈ state.streamOf read.1, entry.id ≤ read.2)

/-- What a turn may do to streams and to those who wait for them to grow.  A waker is let
go of by the connection it was handed to. -/
inductive Stirred (before after : State) (parked : Option Parked) : Happening → Prop where
  | asked {env : Env} {call : StoreCall} {reply : call.Reply}
      (stirs : State.Stirs before after call reply) :
      Stirred before after parked (.called env (.store call) reply)
  | aside {what : Happening} (unparked : what.parks = none)
      (entries : after.entries = before.entries) (watchers : after.watchers = before.watchers)
      (wakers : after.wakers = before.wakers) (handles : after.handles = before.handles) :
      Stirred before after parked what
  | released {what : Happening} (waker : Nat) (reads : List (Bytes × EntryId))
      (unparked : what.parks = none) (isParked : parked = some (.onStreams waker reads))
      (isAfter : after = before.release waker) : Stirred before after parked what

/-- Only a waker that was handed out is waited on. -/
theorem parked_of_notified {deadline : Option Instant}
    (allows : parking.allows parked (.notified waker deadline)) :
    ∃ reads, parked = some (.onStreams waker reads) := by
  rcases parked with _ | receiver | ⟨other, reads⟩
  · exact allows.elim
  · obtain ⟨_, ⟨⟩⟩ := allows
  · obtain ⟨_, same⟩ := allows
    cases same
    exact ⟨reads, rfl⟩

/-- A call that is not on the store lets go of a waker or leaves all of this alone. -/
theorem perform_stirred {env : Env} {world after : World} {call : Call} {reply : call.Reply}
    {α : Type} {resume : call.Reply → Prog α} {ends : Option Parked → α → Prop}
    (parks : (Program.call call resume : Prog α).Keeps parking ends parked)
    (proper : world.store.Proper) (called : ∀ asked, call = .store asked → asked.Proper)
    (performed : world.perform env call = .done after reply) :
    Stirred world.store after.store parked (.called env call reply) := by
  have treated := perform_treated performed
  generalize after.store = store at treated ⊢
  cases treated with
  | asked held => exact .asked (State.perform_stirs proper (called _ rfl) held)
  | gaveUp isWaiting | received unawaited => exact .aside rfl rfl rfl rfl rfl
  | released =>
    obtain ⟨reads, isParked⟩ := parked_of_notified parks.1
    exact .released _ reads rfl isParked rfl
  | aside apart =>
    refine .aside ?_ rfl rfl rfl rfl
    cases call <;> first | rfl | cases apart

section

variable [Platform]

theorem Stage.Moves.stirred {server : Server} {id : Nat} {world after : World} {stage moved : Stage}
    {move : Move} (parks : stage.Parks parked) (proper : world.store.Proper)
    (called : ∀ env call reply, what = .called env (.store call) reply → call.Proper)
    (moves : Stage.Moves server id world stage move moved after what) :
    Stirred world.store after.store parked what := by
  cases moves with
  | call performed =>
    refine perform_stirred parks proper (fun asked isStore => ?_) performed
    subst isStore
    exact called _ _ _ rfl
  | panic performed =>
    rw [perform_panicked performed]
    exact .aside rfl rfl rfl rfl rfl
  | _ => exact .aside rfl rfl rfl rfl rfl

omit [Platform] in
/-- Whoever was not handed their waker on this turn is as alert as before. -/
theorem Parked.Alert.kept {before after : State} {turned : Option Parked}
    (alert : (Parked.onStreams waker reads).Alert before)
    (stirred : Stirred before after turned what)
    (apart : ∀ others, turned ≠ some (.onStreams waker others)) :
    (Parked.onStreams waker reads).Alert after := by
  obtain ⟨older, permit, held, asleep⟩ := alert
  cases stirred with
  | aside unparked entries watchers wakers handles =>
    refine ⟨by rw [handles]; exact older, permit, by rw [wakers]; exact held, fun untold => ?_⟩
    simpa only [State.watchersAt, State.streamOf, watchers, entries] using asleep untold
  | released other others unparked isParked isAfter =>
    subst isAfter
    have different : waker ≠ other := fun same => apart others (same ▸ isParked)
    refine ⟨older, permit, ?_, asleep⟩
    rw [State.release, Map.lookup_insert, if_neg different]
    exact held
  | asked stirs =>
    cases stirs with
    | aside unwatched watchers wakers handles streams =>
      refine ⟨older.trans_le handles, permit, by rw [wakers]; exact held,
        fun untold read member => ?_⟩
      obtain ⟨left, nothing⟩ := asleep untold read member
      refine ⟨?_, fun entry isThere => nothing entry ((streams read.1).mem isThere)⟩
      simpa only [State.watchersAt, watchers] using left
    | grew key requested fields id handles watchers wakers streams =>
      refine ⟨by rw [handles]; exact older, _, wakers waker permit held,
        fun untold read member => ?_⟩
      simp only [Bool.or_eq_false_iff, decide_eq_false_iff_not] at untold
      obtain ⟨left, nothing⟩ := asleep untold.1 read member
      have different : read.1 ≠ key := fun same => untold.2 (same ▸ left)
      refine ⟨by rw [watchers read.1 different]; exact left, fun entry isThere => ?_⟩
      exact nothing entry ((streams read.1 different).mem isThere)
    | watched others handles wakers watchers left read streams =>
      refine ⟨by rw [handles]; exact Nat.lt_succ_of_lt older, permit, ?_,
        fun untold read member => ?_⟩
      · rw [wakers, Map.lookup_insert, if_neg (Nat.ne_of_lt older)]
        exact held
      · obtain ⟨left, nothing⟩ := asleep untold read member
        exact ⟨watchers read.1 waker ⟨permit, held⟩ older left,
          fun entry isThere => nothing entry ((streams read.1).mem isThere)⟩

omit [Platform] in
theorem watches_of_parks {call : StoreCall} {reply : call.Reply}
    (parks : parking.next none (.store call) reply = some (.onStreams waker reads)) :
    call.watches reply = some (waker, reads) := by
  cases call with
  | blpop key => rcases reply with _ | _ | receiver <;> cases parks
  | xreadOrWatch others =>
    rcases reply with _ | _ | other <;> cases parks
    rfl
  | _ => cases parks

omit [Platform] in
/-- Whoever is handed a waker is alert from then on, and the waker is a new one. -/
theorem Stirred.handed {before after : State} {turned : Option Parked}
    (stirred : Stirred before after turned what)
    (parks : what.parks = some (.onStreams waker reads)) :
    waker = before.handles ∧ (Parked.onStreams waker reads).Alert after := by
  cases stirred with
  | aside unparked entries watchers wakers handles => cases unparked.symm.trans parks
  | released other others unparked isParked isAfter => cases unparked.symm.trans parks
  | @asked env call reply stirs =>
    cases stirs with
    | aside unwatched watchers wakers handles streams =>
      cases unwatched.symm.trans (watches_of_parks parks)
    | grew key requested fields id handles watchers wakers streams => cases parks
    | watched others handles wakers watchers left read streams =>
      cases parks
      refine ⟨rfl, by rw [handles]; exact Nat.lt_succ_self _, false, ?_, fun _ each member => ?_⟩
      · rw [wakers, Map.lookup_insert, if_pos rfl]
      · exact ⟨left each member, read each member⟩

/-- Everyone who sleeps is alert, and no two connections have been handed one waker. -/
structure Pool.Alert (pool : Pool) : Prop where
  proper : pool.Proper
  parks : pool.Parks
  alert : ∀ id parked, parkedOn id pool.history = some parked → parked.Alert pool.world.store
  apart : ∀ id other waker reads others,
    parkedOn id pool.history = some (.onStreams waker reads) →
    parkedOn other pool.history = some (.onStreams waker others) → id = other

omit [Platform] in
theorem Pool.alert_start {store : State} (proper : store.Proper) (log : Bytes) :
    (Pool.start store log).Alert where
  proper := Pool.proper_start proper log
  parks := Pool.parks_start store log
  alert _ _ isParked := by cases isParked
  apart _ _ _ _ _ isParked := by cases isParked

theorem Pool.Alert.step {server : Server} {pool next : Pool} {choice : Choice}
    (alert : pool.Alert) (stepped : pool.step server choice = some next) : next.Alert := by
  have proper := alert.proper.step stepped
  have parks := alert.parks.step stepped
  obtain ⟨rfl, rfl⟩ | ⟨turn, move, stage, moved, world, what, rfl, isStage, moves, rfl⟩ :=
    Pool.step_cases stepped
  · have same (id : Nat) (parked : Parked)
        (isParked : parkedOn id pool.accept.history = some parked) :
        parkedOn id pool.history = some parked := by
      rw [Pool.accept, parkedOn_concat] at isParked
      split at isParked
      · cases isParked
      · exact isParked
    exact ⟨proper, parks, fun id parked isParked => alert.alert id parked (same id parked isParked),
      fun id other waker reads others isParked isToo =>
        alert.apart id other waker reads others (same id _ isParked) (same other _ isToo)⟩
  · have stirred := moves.stirred (alert.parks.stages turn stage isStage) alert.proper.store
      (alert.proper.called isStage moves)
    -- a waker just handed out is none of those handed out before
    have fresh (id : Nat) {waker : Nat} {reads others : List (Bytes × EntryId)}
        (isNew : what.parks = some (.onStreams waker reads))
        (isOld : parkedOn id pool.history = some (.onStreams waker others)) : False := by
      have older := (alert.alert id _ isOld).1
      rw [(stirred.handed isNew).1] at older
      exact lt_irrefl _ older
    refine ⟨proper, parks, fun id parked isParked => ?_,
      fun id other waker reads others isParked isToo => ?_⟩
    · rw [parkedOn_concat] at isParked
      cases parked with
      | onList receiver => exact True.intro
      | onStreams waker reads =>
        split at isParked
        · exact (stirred.handed isParked).2
        · rename_i elsewhere
          refine (alert.alert id _ isParked).kept stirred fun others isTurn => elsewhere ?_
          exact alert.apart turn id waker others reads isTurn isParked
    · rw [parkedOn_concat] at isParked isToo
      split at isParked
      · rename_i isHere
        split at isToo
        · rename_i isHereToo
          exact isHere.symm.trans isHereToo
        · exact (fresh other isParked isToo).elim
      · split at isToo
        · exact (fresh id isToo isParked).elim
        · exact alert.apart id other waker reads others isParked isToo

/-- A read that is blocked is told of every entry it waits for: until then there is none, and its
waker stays under every key it reads, whatever other reads do. -/
theorem blocked_reads_miss_nothing (server : Server) (store : State) (log : Bytes)
    (proper : store.Proper) (choices : List Choice) (pool : Pool)
    (ran : Run.after (Pool.step server) (.start store log) choices = some pool)
    (id : Nat) (asked : Value) (waker : Nat) (deadline : Option Instant)
    (resume : Bool → Prog (Answer × Client))
    (sleeps : pool.stages[id]? = some (.running asked (.call (.notified waker deadline) resume))) :
    ∃ reads permit, parkedOn id pool.history = some (.onStreams waker reads) ∧
      pool.world.store.wakers[waker]? = some ⟨permit, true⟩ ∧
      -- until it is told, its waker is under every key it reads and there is nothing to read
      (permit = false → ∀ read ∈ reads, waker ∈ pool.world.store.watchersAt read.1 ∧
        ∀ entry ∈ pool.world.store.streamOf read.1, entry.id ≤ read.2) ∧
      -- and no other read drops the waker
      ∀ clock others after reply,
        pool.world.store.perform clock (.xreadOrWatch others) = some (after, reply) →
        ∀ key, waker ∈ pool.world.store.watchersAt key → waker ∈ after.watchersAt key := by
  have alert : pool.Alert := Run.invariant_always (fun pool => pool.Alert)
    (fun _ _ _ alert => alert.step) (Pool.alert_start proper log) ran
  obtain ⟨reads, isParked⟩ := parked_of_notified (alert.parks.stages id _ sleeps).1
  obtain ⟨older, permit, held, asleep⟩ := alert.alert id _ isParked
  refine ⟨reads, permit, isParked, held, asleep, ?_⟩
  intro clock others after reply performed key left
  have proper : (StoreCall.xreadOrWatch others).Proper := True.intro
  cases State.perform_stirs alert.proper.store proper performed with
  | aside unwatched watchers wakers handles streams =>
    simpa only [State.watchersAt, watchers] using left
  | watched reads handles wakers watchers left' read streams =>
    exact watchers key waker ⟨permit, held⟩ older left

end

/-- A client waits on one stream named twice and on another. -/
def sleeping : List Choice :=
  [.accept] ++
    Choice.begun 0 ["XREAD", "BLOCK", "0", "STREAMS", "s", "s", "t", "0-0", "0-0", "5-0"] 2

/-- The first client sleeps on a waker that watches the stream twice. -/
def Pool.sleepsTwice (pool : Pool) : Bool :=
  match (pool.stages[0]? : Option Stage) with
  | some (.running _ (.call (.notified waker _) _)) =>
    pool.world.store.wakers[waker]? == some ⟨false, true⟩ &&
      pool.world.store.watchersAt (utf8 "s") == [waker, waker]
  | _ => false

theorem blocked_reads_miss_nothing_sleeping :
    ∃ pool waker reads, Run.after (@Pool.step .ascii {}) (.start {} []) sleeping = some pool ∧
      pool.world.store.wakers[waker]? = some ⟨false, true⟩ ∧
      pool.world.store.watchersAt (utf8 "s") = [waker, waker] ∧
      parkedOn 0 pool.history = some (.onStreams waker reads) ∧
      ∀ read ∈ reads, waker ∈ pool.world.store.watchersAt read.1 := by
  obtain ⟨pool, ran, seen⟩ := (Option.any_eq_true Pool.sleepsTwice
    (Run.after (@Pool.step .ascii {}) (.start {} []) sleeping)).mp (by decide +kernel)
  unfold Pool.sleepsTwice at seen
  split at seen
  · rename_i asked waker deadline resume sleeps
    simp only [Bool.and_eq_true, beq_iff_eq] at seen
    obtain ⟨reads, permit, isParked, held, asleep, -⟩ := @blocked_reads_miss_nothing .ascii {} {} []
      State.proper_empty sleeping pool ran 0 asked waker deadline resume sleeps
    obtain ⟨rfl⟩ : permit = false := by
      rw [seen.1] at held
      cases held
      rfl
    exact ⟨pool, waker, reads, ran, held, seen.2, isParked,
      fun read member => (asleep rfl read member).1⟩
  · cases seen

end RedisServer
