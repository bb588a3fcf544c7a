import RedisServer.Concurrency.Owing
import RedisServer.Recovery.Missed

/-!
# Writing down what connections do at the same time

A command changes the store, is appended to the log and is sent to the replicas in three
steps, and others may take theirs in between.  What is written down comes to what the store
holds as long as the commands on each key are written down in the order in which they
changed it.
-/

namespace RedisServer

variable {server : Server} {pool : Pool} {id : Nat} {stage moved : Stage} {move : Move}
  {what : Happening} {ledger : Ledger} {log : Bytes} {store : State}

/-! ## Turns -/

/-- The calls that write something down. -/
def Ledger.writtenBy : Ledger → Call → Bool
  | .log, .record _ => true
  | .stream, .send _ => true
  | _, _ => false

/-- Every append goes through, and what is written down is the first to be of what was done
to its key. -/
def Pool.inTurn (ledger : Ledger) (pool : Pool) : Choice → Bool
  | .turn id (.call env) =>
    match pool.stages[id]? with
    | some (.running _ (.call request _)) =>
      (!request.OnLog || env.append.isNone) && (!ledger.writtenBy request ||
        Done.effects.inTurn (.connection id) (ledger.line pool.history))
    | _ => true
  | _ => true

variable [Platform]

/-- Every connection only writes and pops, and the store holds no deadlines. -/
structure Pool.Owes (server : Server) (pool : Pool) : Prop where
  awaited : pool.Awaited
  undated : pool.world.store.Undated
  accounted : Accounted (phasesOf server pool.history) pool.world.store
  stages : ∀ (id : Nat) (stage : Stage), pool.stages[id]? = some stage →
    stage.Owes server (phasesOf server pool.history id)
  unborn : ∀ id, pool.stages.length ≤ id → phasesOf server pool.history id = .free

omit [Platform] in
/-- A connection that is accepted owes nothing. -/
theorem phasesOf_accept (unborn : phasesOf server pool.history pool.stages.length = .free) :
    phasesOf server pool.accept.history = phasesOf server pool.history := by
  rw [Pool.accept, phasesOf_concat]
  exact Function.update_eq_self_iff.mpr unborn.symm

theorem Pool.Owes.accept (owes : pool.Owes server) :
    pool.accept.Owes server where
  awaited := @Pool.Awaited.step _ server pool _ .accept owes.awaited rfl
  undated := owes.undated
  accounted := by
    rw [phasesOf_accept (owes.unborn _ le_rfl)]
    exact ⟨owes.accounted.tended, owes.accounted.apart, owes.accounted.made⟩
  stages id stage isStage := by
    rw [phasesOf_accept (owes.unborn _ le_rfl)]
    rw [Pool.accept_lookup] at isStage
    split at isStage
    · rename_i isNew
      cases isStage
      exact ⟨⟨rfl, rfl⟩, owes.unborn id isNew.ge⟩
    · exact owes.stages id stage isStage
  unborn id beyond := by
    rw [phasesOf_accept (owes.unborn _ le_rfl)]
    exact owes.unborn id (by simp [Pool.accept] at beyond; omega)

/-- What a turn is, and what it leaves the connection with. -/
theorem Pool.Owes.turned {after : World} (owes : pool.Owes server) (recording : server.recording)
    (asks : ∀ value, move = .ask value → value.WritesOrPops)
    (isStage : pool.stages[id]? = some stage)
    (moves : Stage.Moves server id pool.world stage move moved after what) :
    Turned server id (phasesOf server pool.history id) pool.world after what ∧
      moved.Owes server (what.owing server (phasesOf server pool.history id)) :=
  (owes.stages id stage isStage).moves recording owes.awaited.proper.store asks moves

theorem Pool.Owes.step {server : Server} {pool next : Pool} {choice : Choice}
    (owes : pool.Owes server) (recording : server.recording)
    (asks : ∀ id value, choice = .turn id (.ask value) → value.WritesOrPops)
    (stepped : pool.step server choice = some next) : next.Owes server := by
  have awaited := owes.awaited.step stepped
  obtain ⟨rfl, rfl⟩ | ⟨turn, move, stage, moved, world, what, rfl, isStage, moves, rfl⟩ :=
    Pool.step_cases stepped
  · exact owes.accept
  · have proper := owes.awaited.proper
    obtain ⟨turned, left⟩ := owes.turned recording
      (fun value isAsk => asks turn value (isAsk ▸ rfl)) isStage moves
    have called := proper.called isStage moves
    refine ⟨awaited, turned.undated proper.store owes.awaited.lined called owes.undated, ?_,
      fun id now isNow => ?_, fun id beyond => ?_⟩
    · rw [phasesOf_concat]
      exact turned.accounted proper.store owes.awaited.lined called owes.accounted
    · rw [phasesOf_concat]
      rw [lookup_set isStage] at isNow
      split at isNow
      · rename_i isHere
        cases isNow
        rw [isHere, Function.update_self]
        exact left
      · rename_i elsewhere
        rw [Function.update_of_ne elsewhere]
        exact owes.stages id now isNow
    · have within : turn < pool.stages.length := (List.getElem?_eq_some_iff.mp isStage).1
      simp only [List.length_set] at beyond
      have elsewhere : id ≠ turn := Nat.ne_of_gt (within.trans_le beyond)
      rw [phasesOf_concat, Function.update_of_ne elsewhere]
      exact owes.unborn id beyond

/-- What the condition says of a call that was made on it. -/
theorem Pool.inTurn_called {after : World} (isStage : pool.stages[id]? = some stage)
    (moves : Stage.Moves server id pool.world stage move moved after what)
    (inTurn : pool.inTurn ledger (.turn id move) = true) :
    (∀ env written recorded, what = .called env (.record written) recorded → env.append = none) ∧
      ∀ env call reply, what = .called env call reply → ledger.takes call reply = true →
        Done.effects.inTurn (.connection id) (ledger.line pool.history) = true := by
  cases moves with
  | call performed =>
    simp only [Pool.inTurn, isStage, Bool.and_eq_true, Bool.or_eq_true, Bool.not_eq_true'] at inTurn
    obtain ⟨appends, turn⟩ := inTurn
    constructor
    · rintro env written recorded ⟨⟩
      rcases appends with ⟨⟨⟩⟩ | appends
      exact Option.isNone_iff_eq_none.mp appends
    · rintro env call reply ⟨⟩ takes
      refine turn.resolve_left fun unwritten => ?_
      unfold Ledger.takes at takes
      split at takes
      · cases unwritten
      · cases unwritten
      · cases takes
  | _ =>
    constructor
    · intro env written recorded isCall
      cases isCall
    · intro env call reply isCall
      cases isCall

/-! ## What is written down, and what the store holds -/

/-- What stands written in the log, or queued for the replica on the first connection for as
long as it is followed. -/
def Ledger.Holds (log : Bytes) (records : List (List Bytes)) (pool : Pool) : Ledger → Prop
  | .log => pool.world.log = log ++ encodeAll (records.map asCommand)
  | .stream => ∀ follower, pool.stages[0]? = some (.following follower) →
      pool.world.Follows 0 (records.map fun words => (asCommand words).encode)

/-- A replica that is followed after a turn was followed before it, and has not hung up. -/
theorem Stage.Owes.following {world after : World} {phase : Owing} {follower : Follower}
    (owes : stage.Owes server phase)
    (moves : Stage.Moves server id world stage move (.following follower) after what) :
    (∃ earlier, stage = .following earlier) ∧ what ≠ .hungUp := by
  generalize isMoved : Stage.following follower = moved at moves
  cases moves with
  | takeIn _ _ | report _ => exact ⟨⟨_, rfl⟩, by simp⟩
  | takeOn agreement => exact owes.elim
  | _ => cases isMoved

theorem Ledger.Holds.turn {records more : List (List Bytes)} {after : World} {phase : Owing}
    (holds : ledger.Holds log records pool) (isStage : pool.stages[id]? = some stage)
    (owes : stage.Owes server phase)
    (moves : Stage.Moves server id pool.world stage move moved after what)
    (adds : ledger.Adds id pool.world after what more) (history : List Moment) :
    ledger.Holds log (records ++ more) ⟨after, pool.stages.set id moved, history⟩ := by
  cases ledger with
  | log =>
    rw [Holds, adds, holds]
    simp [encodeAll_eq_flatMap]
  | stream =>
    intro follower isFollowing
    rw [lookup_set isStage] at isFollowing
    rw [List.map_append]
    split at isFollowing
    · rename_i isHere
      cases isFollowing
      obtain ⟨⟨earlier, rfl⟩, stays⟩ := owes.following moves
      exact adds 0 _ (fun _ => stays) (holds earlier (isHere ▸ isStage))
    · rename_i elsewhere
      exact adds 0 _ (fun isHere => absurd isHere elsewhere) (holds follower isFollowing)

/-- What is written down lags behind the store by what stands in line. -/
structure Pool.Lags (server : Server) (ledger : Ledger) (store : State) (log : Bytes)
    (pool : Pool) : Prop where
  owes : pool.Owes server
  reckoned : Reckoned ledger (phasesOf server pool.history) pool.world.store
    (ledger.line pool.history)
  written : ∃ records, (∀ words ∈ records, Replayable words) ∧ ledger.Holds log records pool ∧
    Done.effects.Behind
      (records.foldl (fun space words => carryWords ⟨0, 0⟩ words space) store.contents)
      pool.world.store.contents (ledger.line pool.history)

theorem Pool.Lags.accept (lags : pool.Lags server ledger store log) :
    pool.accept.Lags server ledger store log where
  owes := lags.owes.accept
  reckoned := by
    rw [phasesOf_accept (lags.owes.unborn _ le_rfl), Pool.accept, Ledger.line_concat]
    exact ⟨lags.reckoned.own, lags.reckoned.handed, lags.reckoned.nobody⟩
  written := by
    obtain ⟨records, replayable, holds, behind⟩ := lags.written
    refine ⟨records, replayable, ?_, ?_⟩
    · cases ledger with
      | log => exact holds
      | stream =>
        intro follower isFollowing
        rw [Pool.accept_lookup] at isFollowing
        split at isFollowing
        · cases isFollowing
        · exact (holds follower isFollowing).congr rfl
    · rw [Pool.accept, Ledger.line_concat]
      exact behind

theorem Pool.Lags.step {server : Server} {ledger : Ledger} {store : State} {log : Bytes}
    {pool next : Pool} {choice : Choice} (lags : pool.Lags server ledger store log)
    (recording : server.recording)
    (master : ledger = .stream → server.config.replicaof = none)
    (asks : ∀ id value, choice = .turn id (.ask value) → value.WritesOrPops)
    (inTurn : pool.inTurn ledger choice = true)
    (stepped : pool.step server choice = some next) : next.Lags server ledger store log := by
  have owes := lags.owes.step recording asks stepped
  obtain ⟨rfl, rfl⟩ | ⟨turn, move, stage, moved, world, what, rfl, isStage, moves, rfl⟩ :=
    Pool.step_cases stepped
  · exact lags.accept
  · have proper := lags.owes.awaited.proper
    obtain ⟨turned, left⟩ := lags.owes.turned recording
      (fun value isAsk => asks turn value (isAsk ▸ rfl)) isStage moves
    have called := proper.called isStage moves
    obtain ⟨appends, waits⟩ := Pool.inTurn_called isStage moves inTurn
    obtain ⟨records, replayable, holds, behind⟩ := lags.written
    refine ⟨owes, ?_, ?_⟩
    · rw [phasesOf_concat, Ledger.line_concat]
      exact turned.reckoned proper.store lags.owes.awaited.lined called lags.owes.accounted appends
        master lags.reckoned
    · obtain ⟨more, alsoReplayable, adds, later⟩ := turned.behind proper.store
        lags.owes.awaited.lined called lags.owes.undated appends waits lags.reckoned behind
      refine ⟨records ++ more, fun words member => ?_, ?_, ?_⟩
      · rcases List.mem_append.mp member with old | new
        · exact replayable words old
        · exact alsoReplayable words new
      · exact holds.turn isStage (lags.owes.stages turn stage isStage) moves adds _
      · rw [List.foldl_append, Ledger.line_concat]
        exact later

/-- A server that has just come up, with no clients and perhaps with replicas. -/
structure Pool.Fresh (pool : Pool) : Prop where
  unused : pool.history = []
  replicas : ∀ stage ∈ pool.stages, ∃ follower, stage = .following follower
  proper : pool.world.store.Proper
  undated : pool.world.store.Undated
  nobody : pool.world.store.waiters = ∅
  nothing : pool.world.store.oneshots = ∅

omit [Platform] in
theorem Pool.Fresh.awaited (fresh : pool.Fresh) : pool.Awaited where
  proper := by
    refine ⟨fresh.proper, fun stage member => ?_⟩
    obtain ⟨follower, rfl⟩ := fresh.replicas stage member
    exact True.intro
  lined := by constructor <;> simp [State.queueAt, fresh.nobody, fresh.nothing]
  parks := by
    refine ⟨fun id stage isStage => ?_, fun id _ => by rw [fresh.unused]; rfl⟩
    obtain ⟨follower, rfl⟩ := fresh.replicas stage (List.mem_of_getElem? isStage)
    rw [fresh.unused]
    rfl
  waited receiver waiting := by simp [fresh.nothing] at waiting

theorem Pool.Fresh.lags (fresh : pool.Fresh) (holds : ledger.Holds pool.world.log [] pool) :
    pool.Lags server ledger pool.world.store pool.world.log where
  owes := by
    refine ⟨fresh.awaited, fresh.undated, ?_, fun id stage isStage => ?_, fun id _ => ?_⟩
    · rw [fresh.unused]
      exact ⟨by simp [State.queueAt, fresh.nobody], by simp [phasesOf], by simp [phasesOf]⟩
    · obtain ⟨follower, rfl⟩ := fresh.replicas stage (List.mem_of_getElem? isStage)
      rw [fresh.unused]
      rfl
    · rw [fresh.unused]
      rfl
  reckoned := by
    rw [fresh.unused]
    exact ⟨fun id => by simp [Ledger.line, phasesOf], by simp [phasesOf], fun _ _ => rfl⟩
  written := by
    refine ⟨[], by simp, holds, ?_⟩
    rw [fresh.unused]
    exact Effects.behind_nil _

/-- Whether a connection is in the middle of no command. -/
def Stage.answered : Stage → Bool
  | .running _ _ => false
  | _ => true

/-- Once every command has been answered nothing is left to be written down. -/
theorem Pool.Lags.caughtUp (lags : pool.Lags server ledger store log)
    (answered : ∀ stage ∈ pool.stages, stage.answered = true) :
    ∃ records, (∀ words ∈ records, Replayable words) ∧ ledger.Holds log records pool ∧
      records.foldl (fun space words => carryWords ⟨0, 0⟩ words space) store.contents =
        pool.world.store.contents := by
  obtain ⟨records, replayable, holds, behind⟩ := lags.written
  refine ⟨records, replayable, holds, behind.caughtUp (lags.reckoned.eq_nil fun id => ?_)⟩
  cases isStage : pool.stages[id]? with
  | none => exact lags.owes.unborn id (List.getElem?_eq_none_iff.mp isStage)
  | some stage =>
    have owes := lags.owes.stages id stage isStage
    cases stage with
    | running asked program => cases answered _ (List.mem_of_getElem? isStage)
    | idle client => exact owes.2
    | handingOver agreement => exact owes.elim
    | following follower => exact owes
    | gone => exact owes

/-! ## Replaying what was written down -/

/-- The store that comes of reading these bytes back and doing the commands in them again. -/
def replayed (server : Server) (supply : Nat → Env) (store : State) (log : Bytes) :
    Option State :=
  match Aof.recorded log with
  | .error _ => none
  | .ok commands =>
    match (replay { server with recording := false } {} 0 commands).exec machine supply 0
      { store, log } with
    | .done (_, after) _ => some after.store
    | _ => none

theorem replayed_records {records : List (List Bytes)}
    (replayable : ∀ words ∈ records, Replayable words) (settled : store.Settled) (server : Server)
    (supply : Nat → Env) :
    ∃ state, replayed server supply store (encodeAll (records.map asCommand)) = some state ∧
      state.Settled ∧ state.contents =
        records.foldl (fun space words => carryWords ⟨0, 0⟩ words space) store.contents := by
  have readBack := Aof.recorded_encodeAll fun words member => (replayable words member).sendable
  have ensures := @replay_ensures _ Terms.total { server with recording := false } {}
    { store, log := encodeAll (records.map asCommand) } records replayable ⟨rfl, rfl, rfl⟩ settled 0
  obtain ⟨count, after, done, ends, afterSettled, contents⟩ := ensures.exec_total supply 0
  refine ⟨after.store, ?_, afterSettled, contents⟩
  simp only [replayed, readBack, ends]

theorem Pool.Lags.after {server : Server} {ledger : Ledger} {pool last : Pool}
    {choices : List Choice} (fresh : pool.Fresh) (holds : ledger.Holds pool.world.log [] pool)
    (recording : server.recording)
    (master : ledger = .stream → server.config.replicaof = none)
    (asks : ∀ id value, .turn id (.ask value) ∈ choices → value.WritesOrPops)
    (inTurn : Run.Meets (Pool.step server) (fun pool choice => pool.inTurn ledger choice = true)
      pool choices)
    (ran : Run.after (Pool.step server) pool choices = some last) :
    last.Lags server ledger pool.world.store pool.world.log :=
  Run.invariant (fun next : Pool => next.Lags server ledger pool.world.store pool.world.log)
    (fun _ _ _ lags meets stepped => lags.step recording master
      (fun id value isAsk => asks id value (isAsk ▸ meets.2)) meets.1 stepped)
    (fresh.lags holds) (inTurn.and_mem fun _ member => member) ran

omit [Platform] in
theorem Ledger.holds_log (pool : Pool) : Ledger.log.Holds pool.world.log [] pool := by
  simp [Ledger.Holds, encodeAll_eq_flatMap]

/-- Once every command has been answered, the log comes to what the store holds. -/
theorem Pool.Lags.replayed (lags : pool.Lags server .log store log) (settled : store.Settled)
    (answered : ∀ stage ∈ pool.stages, stage.answered = true) (copy : Server) (later : Nat → Env) :
    ∃ state, RedisServer.replayed copy later store (pool.world.log.drop log.length) = some state ∧
      ∀ now key, (state.live now key).map Entry.data =
        (pool.world.store.live now key).map Entry.data := by
  obtain ⟨records, replayable, holds, contents⟩ := lags.caughtUp answered
  obtain ⟨state, isState, stateSettled, same⟩ := replayed_records replayable settled copy later
  refine ⟨state, ?_, stateSettled.undated.data_eq lags.owes.undated (same.trans contents)⟩
  rw [holds, List.drop_left, isState]

/-! ## The log and the stream -/

/-- A server with a replica that has been following from the start on its first connection. -/
def Pool.followed (store : State) (log : Bytes) (follower : Follower) : Pool where
  world := { store, log, replicas := [{ connection := 0 }] }
  stages := [.following follower]

/-- Once every command is answered, the log and what was queued for a replica that has followed
from the start both come to what the server holds, if the writes to each key are appended and
sent in the order in which they changed it. -/
theorem log_and_stream_agree (server : Server) (master : server.config.replicaof = none)
    (recording : server.recording) (store : State) (proper : store.Proper)
    (undated : store.Undated) (nobody : store.waiters = ∅) (nothing : store.oneshots = ∅)
    (log : Bytes) (first : Follower) (choices : List Choice) (pool : Pool)
    -- clients ask for writes that mean the same at any time
    (writes : ∀ id value, .turn id (.ask value) ∈ choices → value.Writes)
    -- and append and send them, key by key, in the order in which they changed the store
    (inTurn : Run.Meets (Pool.step server)
      (fun pool choice => pool.inTurn .log choice = true ∧ pool.inTurn .stream choice = true)
      (.followed store log first) choices)
    (ran : Run.after (Pool.step server) (.followed store log first) choices = some pool)
    (answered : ∀ stage ∈ pool.stages, stage.answered = true)
    (copy : Server) (later : Nat → Env) :
    -- then the log replayed from the initial store comes to what the server holds
    (∃ state, replayed copy later store (pool.world.log.drop log.length) = some state ∧
      ∀ now key, (state.live now key).map Entry.data =
        (pool.world.store.live now key).map Entry.data) ∧
    -- and so does the replica, however what was queued for it is cut into reads
    ∀ follower, pool.stages[0]? = some (.following follower) →
      ∀ (start : Nat) (heard : Bytes) (reads : List Bytes),
        heard ++ reads.flatten = (pool.world.queue 0).flatten →
        ∃ taken last, keepUpAll (carryOutOn copy later) start ((0, { store }), {}) heard reads =
            ⟨taken, some last, none⟩ ∧
          ∀ now key, (last.1.2.store.live now key).map Entry.data =
            (pool.world.store.live now key).map Entry.data := by
  have fresh : (Pool.followed store log first).Fresh :=
    ⟨rfl, by simp [Pool.followed], proper, undated, nobody, nothing⟩
  have settled : store.Settled := ⟨proper, undated, by simp [State.Quiet, nobody]⟩
  have asks (id : Nat) (value : Value) (member : .turn id (.ask value) ∈ choices) :
      value.WritesOrPops := (writes id value member).orPops
  constructor
  · have lags := @Pool.Lags.after _ server .log _ pool choices fresh (Ledger.holds_log _) recording
      (by simp) asks (inTurn.mono fun _ _ both => both.1) ran
    exact lags.replayed settled answered copy later
  · intro follower isFollowing start heard reads stream
    have lags := @Pool.Lags.after _ server .stream _ pool choices fresh
      (fun _ _ => ⟨_, _, rfl, rfl, rfl, rfl⟩) recording (fun _ => master) asks
      (inTurn.mono fun _ _ both => both.2) ran
    obtain ⟨records, replayable, holds, contents⟩ := lags.caughtUp answered
    rw [(holds follower isFollowing).queue] at stream
    obtain ⟨taken, last, ends, lastSettled, same⟩ := @keepUpAll_sent _ { store } later copy records
      (fun words member => .inl (replayable words member)) settled start heard reads stream
    exact ⟨taken, last, ends, lastSettled.undated.data_eq lags.owes.undated (same.trans contents)⟩

omit [Platform] in
theorem typed_rpush_writes {key element : String}
    (small : ∀ word ∈ ["RPUSH", key, element], (utf8 word).length ≤ maxBulkLength) :
    @Value.Writes .ascii (typed ["RPUSH", key, element]) := by
  refine @Value.Writes.mk .ascii _
    (typed_received (by simp) (Nat.le_of_ble_eq_true rfl) small) fun command spelled => ?_
  have parsed := @Command.parse_capitals .ascii "RPUSH" (by simp) (by decide)
    [utf8 key, utf8 element]
  cases parsed.symm.trans spelled
  exact ⟨rfl, @Command.plain_of_few .ascii _ (by simp) (by simp)⟩

/-- Two clients that write to keys of their own, each while the other is in the middle of it. -/
def writtenApart : List Choice :=
  [.accept, .accept] ++ Choice.begun 1 ["RPUSH", "k", "a"] 1 ++
    Choice.begun 2 ["RPUSH", "j", "b"] 2 ++ List.replicate 3 (.turn 1 (.call {})) ++
    [.turn 1 .answer] ++ List.replicate 2 (.turn 2 (.call {})) ++ [.turn 2 .answer]

omit [Platform] in
theorem log_and_stream_agree_apart :
    let _ := Platform.ascii
    ∃ pool, Run.after (Pool.step {}) (.followed {} [] { agreement := .null, offset := some 0 })
        writtenApart = some pool ∧
      pool.world.store.listAt (utf8 "k") = [utf8 "a"] ∧
      pool.world.store.listAt (utf8 "j") = [utf8 "b"] ∧
      (∃ state, replayed {} (fun _ => {}) {} pool.world.log = some state ∧
        ∀ now key, (state.live now key).map Entry.data =
          (pool.world.store.live now key).map Entry.data) ∧
      ∃ taken last, keepUpAll (carryOutOn {} fun _ => {}) 0 ((0, {}), {}) [] (pool.world.queue 0) =
          ⟨taken, some last, none⟩ ∧
        ∀ now key, (last.1.2.store.live now key).map Entry.data =
          (pool.world.store.live now key).map Entry.data := by
  intro platform
  obtain ⟨pool, ran, seen⟩ := (Option.any_eq_true
    (fun pool : Pool => pool.stages.all Stage.answered && pool.stages[0]?.any Stage.isFollowing &&
      pool.world.store.listAt (utf8 "k") == [utf8 "a"] &&
      pool.world.store.listAt (utf8 "j") == [utf8 "b"])
    (Run.after (Pool.step {}) (.followed {} [] { agreement := .null, offset := some 0 })
      writtenApart)).mp (by decide +kernel)
  simp only [Bool.and_eq_true, beq_iff_eq, List.all_eq_true, Option.any_eq_true] at seen
  obtain ⟨⟨⟨answered, stage, isStage, isFollowing⟩, first⟩, second⟩ := seen
  obtain ⟨follower, rfl⟩ := Stage.exists_of_isFollowing isFollowing
  have agree := log_and_stream_agree {} rfl rfl {} State.proper_empty (by simp [State.Undated]) rfl
    rfl [] { agreement := .null, offset := some 0 } writtenApart pool
    (fun id value member => by
      simp [writtenApart, Choice.begun] at member
      rcases member with ⟨-, rfl⟩ | ⟨-, rfl⟩
      · exact typed_rpush_writes (by decide +kernel)
      · exact typed_rpush_writes (by decide +kernel))
    (by decide +kernel) ran answered {} fun _ => {}
  exact ⟨pool, ran, first, second, agree.1, agree.2 follower isStage 0 [] _ rfl⟩

/-- Two clients that write to one key, where the one that came second is the first to write
it down. -/
def overtaken : List Choice :=
  [.accept, .accept] ++ Choice.begun 1 ["SET", "k", "a"] 1 ++
    Choice.command 2 ["SET", "k", "b"] 4 ++ List.replicate 3 (.turn 1 (.call {})) ++
    [.turn 1 .answer]

omit [Platform] in
/-- The server holds what the second wrote, and the log and the replica come to what the first
did. -/
theorem log_and_stream_overtaken :
    let _ := Platform.ascii
    ∃ pool, Run.after (Pool.step {}) (.followed {} [] { agreement := .null, offset := some 0 })
        overtaken = some pool ∧
      (∀ stage ∈ pool.stages, stage.answered = true) ∧
      (pool.world.store.live 0 (utf8 "k")).map Entry.data = some (.string (utf8 "b")) ∧
      (∃ state, replayed {} (fun _ => {}) {} pool.world.log = some state ∧
        (state.live 0 (utf8 "k")).map Entry.data = some (.string (utf8 "a"))) ∧
      ∃ last, (keepUpAll (carryOutOn {} fun _ => {}) 0 ((0, {}), {}) []
          (pool.world.queue 0)).state = some last ∧
        (last.1.2.store.live 0 (utf8 "k")).map Entry.data = some (.string (utf8 "a")) := by
  intro platform
  decide +kernel

/-! ## Pops that were blocked -/

/-- What has happened on one connection. -/
def happenedOn (id : Nat) (history : List Moment) : List Happening :=
  (history.filter fun moment => moment.id = id).map Moment.what

omit [Platform] in
theorem phasesOf_eq (server : Server) (history : List Moment) (id : Nat) :
    phasesOf server history id =
      (happenedOn id history).foldl (fun phase what => what.owing server phase) .free := by
  induction history using List.reverseRecOn with
  | nil => rfl
  | append_singleton history moment ih =>
    rw [phasesOf_concat, happenedOn, List.filter_append, List.map_append, List.foldl_append,
      ← happenedOn, ← ih]
    by_cases here : moment.id = id
    · subst here
      simp
    · rw [Function.update_of_ne (Ne.symm here)]
      simp [here]

/-- The key a client was blocked on and the element it was handed, if being handed it is the
last thing that has happened to it. -/
def blockedPop (happened : List Happening) : Option (Bytes × Bytes) :=
  match happened.reverse with
  | .called _ (.receive receiver _) (some element) ::
      .called _ (.store (.blpop key)) (.ok (.waiting told)) :: _ =>
    if receiver = told then some (key, element) else none
  | _ => none

/-- What was appended to the log. -/
def Happening.recorded : Happening → Option Value
  | .called _ (.record written) true => some written
  | _ => none

/-- If something is recorded for a pop that was blocked, then what stands in the log before it
leaves the element the client was handed at the front of the list, and the record takes it. -/
def LandsInPlace (copy : Server) (later : Nat → Env) (store : State) (log : Bytes)
    (before : List Moment) (moment : Moment) : Prop :=
  ∀ key element written, blockedPop (happenedOn moment.id before) = some (key, element) →
    moment.what.recorded = some written →
    ∃ rest,
      ((replayed copy later store (moment.world.log.drop log.length)).map fun state =>
        state.listAt key) = some (element :: rest) ∧
      ((replayed copy later store ((moment.world.log ++ written.encode).drop log.length)).map
        fun state => state.listAt key) = some rest

omit [Platform] in
/-- A connection whose client has just received an element owes the pop of it. -/
theorem phasesOf_of_blockedPop {server : Server} {history : List Moment} {id : Nat}
    {key element : Bytes} (blocked : blockedPop (happenedOn id history) = some (key, element)) :
    phasesOf server history id = .recording (.pop key element) := by
  rw [phasesOf_eq]
  unfold blockedPop at blocked
  split at blocked
  · rename_i happened
    split at blocked
    · cases blocked
      rw [← List.reverse_reverse (happenedOn id history), happened]
      simp [Happening.owing, Owing.next]
    · cases blocked
  · cases blocked

/-- The elements of a list. -/
def elementsOf : Option Cell → List Bytes
  | some ⟨.list list, _⟩ => list
  | _ => []

omit [Platform] in
theorem State.listAt_eq (state : State) (key : Bytes) :
    state.listAt key = elementsOf (state.contents key) := by
  rw [listAt, contents]
  cases state.entries[key]? with
  | none => rfl
  | some entry =>
    obtain ⟨data, expiresAt, version⟩ := entry
    cases data <;> rfl

omit [Platform] in
/-- A pop that answers an element takes it from the front of a list. -/
theorem elementsOf_pop {key element : Bytes} {cell : Option Cell}
    (fits : Done.effects.fits (.pop key element) cell) :
    ∃ rest, elementsOf cell = element :: rest ∧
      elementsOf (Done.effects.act (.pop key element) cell) = rest := by
  obtain ⟨after, acted⟩ := fits
  have popped : some (Cell.lpop 1 cell) = some (after, .ok [element]) := acted
  have isAfter : Done.effects.act (.pop key element) cell = after := by
    simp only [Done.effects, acted]
    rfl
  rw [isAfter]
  rcases cell with _ | ⟨data, expiresAt⟩
  · cases popped
  · cases data with
    | list list =>
      simp only [Cell.lpop, Option.some.injEq, Prod.mk.injEq, Except.ok.injEq] at popped
      obtain ⟨rfl, front⟩ := popped
      cases list with
      | nil => cases front
      | cons first rest =>
        cases front
        refine ⟨rest, rfl, ?_⟩
        cases rest <;> rfl
    | _ => cases popped

/-- What is recorded for a pop that was blocked lands where the element is at the front. -/
theorem Pool.Lags.lands {after : World} (lags : pool.Lags server .log store log)
    (settled : store.Settled) (recording : server.recording)
    (asks : ∀ value, move = .ask value → value.WritesOrPops)
    (inTurn : pool.inTurn .log (.turn id move) = true) (isStage : pool.stages[id]? = some stage)
    (moves : Stage.Moves server id pool.world stage move moved after what) (copy : Server)
    (later : Nat → Env) :
    LandsInPlace copy later store log pool.history ⟨id, pool.world, what⟩ := by
  intro key element written blocked isRecord
  have owes := @phasesOf_of_blockedPop server _ _ _ _ blocked
  obtain ⟨turned, -⟩ := lags.owes.turned recording asks isStage moves
  obtain ⟨-, waits⟩ := Pool.inTurn_called isStage moves inTurn
  obtain ⟨records, replayable, holds, behind⟩ := lags.written
  obtain ⟨env, rfl⟩ : ∃ env, what = .called env (.record written) true := by
    simp only [Happening.recorded] at isRecord
    split at isRecord <;> cases isRecord
    exact ⟨_, rfl⟩
  obtain ⟨fits, -⟩ := @Reckoned.write _ _ _ _ id _ _ _ lags.reckoned (by rw [owes]; rfl)
    (waits _ _ _ rfl rfl) behind
  obtain ⟨rest, front, left⟩ := elementsOf_pop fits
  rw [owes] at turned
  generalize isDone : Owing.recording (.pop key element) = phase at turned
  cases turned with
  | aside free => cases isDone.trans free
  | @recorded env words recorded done isOwed noted appended sameStore replicas =>
    cases isDone.trans isOwed
    obtain ⟨state, isState, -, contents⟩ := replayed_records replayable settled copy later
    have alsoReplayable : ∀ others ∈ records ++ [words], Replayable others := by
      simpa [or_imp, forall_and] using ⟨replayable, noted.replayable⟩
    obtain ⟨next, isNext, -, grown⟩ := replayed_records alsoReplayable settled copy later
    rw [List.foldl_append, List.foldl_cons, List.foldl_nil, noted.carried] at grown
    refine ⟨rest, ?_, ?_⟩
    · rw [holds, List.drop_left, isState, Option.map_some, State.listAt_eq, contents]
      exact congrArg some front
    · have isLog : (pool.world.log ++ (asCommand words).encode).drop log.length =
          encodeAll ((records ++ [words]).map asCommand) := by
        rw [holds, List.append_assoc, List.drop_left]
        simp [encodeAll_eq_flatMap]
      have taken (space : Keyspace) : Done.effects.apply space (.pop key element) key =
          Done.effects.act (.pop key element) (space key) := Function.update_self ..
      rw [isLog, isNext, Option.map_some, State.listAt_eq, grown, taken]
      exact congrArg some left

/-- What is recorded for a pop that was blocked takes the element its client was handed, and
once every command is answered the log comes to what the server holds, if the commands on each
key are recorded in the order in which they changed it. -/
theorem blocked_pops_in_place (server : Server) (recording : server.recording) (store : State)
    (proper : store.Proper) (undated : store.Undated) (nobody : store.waiters = ∅)
    (nothing : store.oneshots = ∅) (log : Bytes) (choices : List Choice) (pool : Pool)
    -- clients ask for writes that mean the same at any time, and for blocking pops
    (asks : ∀ id value, .turn id (.ask value) ∈ choices → value.WritesOrPops)
    -- and record them, key by key, in the order in which they changed the store
    (inTurn : Run.Meets (Pool.step server) (fun pool choice => pool.inTurn .log choice = true)
      (.start store log) choices)
    (ran : Run.after (Pool.step server) (.start store log) choices = some pool)
    (copy : Server) (later : Nat → Env) :
    -- then each record of a pop that was blocked takes the element the client was handed
    (∀ before moment rest, pool.history = before ++ moment :: rest →
      LandsInPlace copy later store log before moment) ∧
    -- and once every command is answered the log comes to what the server holds
    ((∀ stage ∈ pool.stages, stage.answered = true) →
      ∃ state, replayed copy later store (pool.world.log.drop log.length) = some state ∧
        ∀ now key, (state.live now key).map Entry.data =
          (pool.world.store.live now key).map Entry.data) := by
  have fresh : (Pool.start store log).Fresh :=
    ⟨rfl, by simp [Pool.start], proper, undated, nobody, nothing⟩
  have settled : store.Settled := ⟨proper, undated, by simp [State.Quiet, nobody]⟩
  have holds := Run.invariant
    (fun pool : Pool => pool.Lags server .log store log ∧
      ∀ before moment rest, pool.history = before ++ moment :: rest →
        LandsInPlace copy later store log before moment)
    (fun pool choice next holds meets stepped => by
      obtain ⟨lags, lands⟩ := holds
      have asked (id : Nat) (value : Value) (isAsk : choice = .turn id (.ask value)) :
          value.WritesOrPops := asks id value (isAsk ▸ meets.2)
      refine ⟨lags.step recording (by simp) asked meets.1 stepped,
        fun before moment rest split => ?_⟩
      obtain ⟨rfl, rfl⟩ | ⟨turn, move, stage, moved, world, what, rfl, isStage, moves, rfl⟩ :=
        Pool.step_cases stepped
      · rcases concat_eq_append_cons split with ⟨rfl, rfl, -⟩ | ⟨others, earlier, -⟩
        · intro _ _ _ _ isRecord
          cases isRecord
        · exact lands before moment others earlier
      · rcases concat_eq_append_cons split with ⟨rfl, rfl, -⟩ | ⟨others, earlier, -⟩
        · exact lags.lands settled recording (fun value isAsk => asked turn value (isAsk ▸ rfl))
            meets.1 isStage moves copy later
        · exact lands before moment others earlier)
    ⟨fresh.lags (Ledger.holds_log _), by simp [Pool.start]⟩
    (inTurn.and_mem fun _ member => member) ran
  exact ⟨holds.2, fun answered => holds.1.replayed settled answered copy later⟩

omit [Platform] in
theorem typed_blpop_pops {key timeout : String}
    (small : ∀ word ∈ ["BLPOP", key, timeout], (utf8 word).length ≤ maxBulkLength) :
    @Value.WritesOrPops .ascii (typed ["BLPOP", key, timeout]) := by
  refine @Value.WritesOrPops.mk .ascii _
    (typed_received (by simp) (Nat.le_of_ble_eq_true rfl) small) fun command spelled => ?_
  have parsed := @Command.parse_capitals .ascii "BLPOP" (by simp) (by decide)
    [utf8 key, utf8 timeout]
  cases parsed.symm.trans spelled
  exact ⟨.inr rfl, @Command.plain_of_few .ascii _ (by simp) (by simp)⟩

/-- A client waits for an element, and another pushes one and records the push before the
first records the pop. -/
def recordedInTurn : List Choice :=
  [.accept, .accept] ++ Choice.begun 0 ["BLPOP", "k", "0"] 1 ++
    Choice.command 1 ["RPUSH", "k", "v"] 4 ++ List.replicate 4 (.turn 0 (.call {})) ++
    [.turn 0 .answer]

omit [Platform] in
theorem blocked_pops_in_place_in_turn :
    let _ := Platform.ascii
    ∃ pool, Run.after (Pool.step {}) (.start {} []) recordedInTurn = some pool ∧
      (∃ before moment rest written left, pool.history = before ++ moment :: rest ∧
        blockedPop (happenedOn moment.id before) = some (utf8 "k", utf8 "v") ∧
        moment.what.recorded = some written ∧
        ((replayed {} (fun _ => {}) {} moment.world.log).map fun state =>
          state.listAt (utf8 "k")) = some (utf8 "v" :: left) ∧
        ((replayed {} (fun _ => {}) {} (moment.world.log ++ written.encode)).map fun state =>
          state.listAt (utf8 "k")) = some left) ∧
      ∃ state, replayed {} (fun _ => {}) {} pool.world.log = some state ∧
        ∀ now key, (state.live now key).map Entry.data =
          (pool.world.store.live now key).map Entry.data := by
  intro platform
  obtain ⟨pool, ran, seen⟩ := (Option.any_eq_true
    (fun pool : Pool => pool.stages.all Stage.answered && pool.history[11]?.any fun moment =>
      blockedPop (happenedOn moment.id (pool.history.take 11)) == some (utf8 "k", utf8 "v") &&
        moment.what.recorded.isSome)
    (Run.after (Pool.step {}) (.start {} []) recordedInTurn)).mp (by decide +kernel)
  simp only [Bool.and_eq_true, beq_iff_eq, List.all_eq_true, Option.any_eq_true] at seen
  obtain ⟨answered, moment, isMoment, blocked, isRecord⟩ := seen
  obtain ⟨written, isWritten⟩ := Option.isSome_iff_exists.mp isRecord
  have inPlace := blocked_pops_in_place {} rfl {} State.proper_empty (by simp [State.Undated]) rfl
    rfl [] recordedInTurn pool
    (fun id value member => by
      simp [recordedInTurn, Choice.begun, Choice.command] at member
      rcases member with ⟨-, rfl⟩ | ⟨-, rfl⟩
      · exact typed_blpop_pops (by decide +kernel)
      · exact @Value.Writes.orPops .ascii _ (typed_rpush_writes (by decide +kernel)))
    (by decide +kernel) ran {} fun _ => {}
  have isSplit := eq_take_cons_drop isMoment
  obtain ⟨left, front, rest⟩ := inPlace.1 _ moment _ isSplit _ _ written blocked isWritten
  exact ⟨pool, ran, ⟨_, moment, _, written, left, isSplit, blocked, isWritten, front, rest⟩,
    inPlace.2 answered⟩

/-- The same, but for the pop, which is recorded before the push that brought the element. -/
def recordedEarly : List Choice :=
  [.accept, .accept] ++ Choice.begun 0 ["BLPOP", "k", "0"] 1 ++
    Choice.begun 1 ["RPUSH", "k", "v"] 1 ++ List.replicate 4 (.turn 0 (.call {})) ++
    [.turn 0 .answer] ++ List.replicate 3 (.turn 1 (.call {})) ++ [.turn 1 .answer]

omit [Platform] in
/-- Where the pop lands there is nothing to take, and the log comes to a list with an element
the server no longer holds. -/
theorem blocked_pop_recorded_early :
    let _ := Platform.ascii
    ∃ pool, Run.after (Pool.step {}) (.start {} []) recordedEarly = some pool ∧
      (∀ stage ∈ pool.stages, stage.answered = true) ∧
      (∃ before moment rest, pool.history = before ++ moment :: rest ∧
        blockedPop (happenedOn moment.id before) = some (utf8 "k", utf8 "v") ∧
        moment.what.recorded.isSome = true ∧
        ((replayed {} (fun _ => {}) {} moment.world.log).map fun state =>
          state.listAt (utf8 "k")) = some []) ∧
      pool.world.store.listAt (utf8 "k") = [] ∧
      ((replayed {} (fun _ => {}) {} pool.world.log).map fun state =>
        state.listAt (utf8 "k")) = some [utf8 "v"] := by
  intro platform
  obtain ⟨pool, ran, seen⟩ := (Option.any_eq_true
    (fun pool : Pool => pool.stages.all Stage.answered &&
      (pool.history[7]?.any fun moment =>
        blockedPop (happenedOn moment.id (pool.history.take 7)) == some (utf8 "k", utf8 "v") &&
          moment.what.recorded.isSome &&
          ((replayed {} (fun _ => {}) {} moment.world.log).map fun state =>
            state.listAt (utf8 "k")) == some []) &&
      pool.world.store.listAt (utf8 "k") == [] &&
      ((replayed {} (fun _ => {}) {} pool.world.log).map fun state =>
        state.listAt (utf8 "k")) == some [utf8 "v"])
    (Run.after (Pool.step {}) (.start {} []) recordedEarly)).mp (by decide +kernel)
  simp only [Bool.and_eq_true, beq_iff_eq, List.all_eq_true, Option.any_eq_true] at seen
  obtain ⟨⟨⟨answered, moment, isMoment, ⟨blocked, isRecord⟩, empty⟩, live⟩, rebuilt⟩ := seen
  exact ⟨pool, ran, answered, ⟨_, moment, _, eq_take_cons_drop isMoment, blocked, isRecord, empty⟩,
    live, rebuilt⟩

end RedisServer
