import RedisServer.Concurrency.Replicating

/-!
# Handing over to a new replica

A replica is told how far along the history is, then the dataset is written to it, and
only then is it taken on.  What is passed on in between reaches the other replicas and
not this one.  As long as nothing is, and as long as the history is not looked at between
a command being passed on and being counted, the new replica misses nothing and counts
from where the server does.
-/

namespace RedisServer

/-- What something that happened adds to the commands passed on since a connection last
looked at the offset. -/
def Moment.since (id : Nat) (sent : List Bytes) (moment : Moment) : List Bytes :=
  match moment.what with
  | .called _ .offset _ => if moment.id = id then [] else sent
  | .called _ (.send command) _ => sent ++ [command.encode]
  | _ => sent

/-- The commands passed on since a connection last looked at the offset. -/
def sentSince (id : Nat) (history : List Moment) : List Bytes :=
  history.foldl (Moment.since id) []

@[simp] theorem sentSince_concat (id : Nat) (history : List Moment) (moment : Moment) :
    sentSince id (history ++ [moment]) = moment.since id (sentSince id history) := by
  simp [sentSince]

/-- The agreement a replica is about to be taken on with. -/
def Stage.handing : Stage → Option Value
  | .running _ (.ret (.replica agreement, _)) => some agreement
  | .handingOver agreement => some agreement
  | _ => none

/-- Whether a connection is about to pass a command on. -/
def Stage.sending : Stage → Bool
  | .running _ (.call (.send _) _) => true
  | _ => false

/-- Whether a connection is about to look at the offset for a `PSYNC`. -/
def Stage.resyncing [Platform] : Stage → Bool
  | .running asked (.call .offset _) => asksFor ["PSYNC"] asked
  | _ => false

namespace Pool

/-- No command is passed on while a replica is being handed over to, and no `PSYNC` looks
at the offset while a command is passed on and not counted yet. -/
def HandsOverApart [Platform] (pool : Pool) : Choice → Prop
  | .turn id (.call _) => ∀ stage ∈ pool.stages[id]?,
      (stage.sending → ∀ other ∈ pool.stages, other.handing = none) ∧
        (stage.resyncing → ∀ other ∈ pool.stages, other.owed = 0)
  | _ => True

instance decidableHandsOverApart [Platform] (pool : Pool) : DecidablePred pool.HandsOverApart
  | .turn id (.call _) => inferInstanceAs (Decidable (∀ stage ∈ pool.stages[id]?,
      (stage.sending → ∀ other ∈ pool.stages, other.handing = none) ∧
        (stage.resyncing → ∀ other ∈ pool.stages, other.owed = 0)))
  | .accept | .turn _ (.ask _) | .turn _ .answer | .turn _ .hear | .turn _ .takeOn | .turn _ .takeIn
  | .turn _ .report | .turn _ .hangUp => isTrue True.intro

/-- There is one queue for each replica. -/
theorem Tracked.queue_eq {pool : Pool} (tracked : pool.Tracked) {replica : Replica}
    (member : replica ∈ pool.world.replicas) :
    pool.world.queue replica.connection = replica.changes := by
  have unique : ∀ other ∈ pool.world.replicas, other.connection = replica.connection →
      other = replica :=
    fun other isOther same => List.inj_on_of_nodup_map tracked.distinct isOther member same
  unfold World.queue
  cases found : pool.world.replicas.find? fun other => other.connection = replica.connection with
  | none => exact absurd (List.find?_eq_none.mp found replica member) (by simp)
  | some other =>
    have same := List.find?_some found
    rw [unique other (List.mem_of_find?_eq_some found) (by simpa using same)]
    rfl

end Pool

/-! ## One step, as the replicas see it -/

/-- Something that passes nothing on, and is no look at the offset by a connection. -/
structure Moment.Quiet (id : Nat) (moment : Moment) : Prop where
  unsent : moment.what.sent = 0
  since : ∀ sent, moment.since id sent = sent

/-- Whether something that happened is a command being passed on. -/
def Happening.relays : Happening → Bool
  | .called _ (.send _) _ => true
  | _ => false

variable {server : Server} {pool : Pool} {id : Nat} {stage moved : Stage} {world : World}
  {move : Move} {what : Happening}

theorem Moment.Quiet.elsewhere (unsent : what.relays = false) {other : Nat} (differs : other ≠ id) :
    (⟨id, world, what⟩ : Moment).Quiet other := by
  cases what with
  | called env call reply =>
    cases call with
    | send command => cases unsent
    | offset => exact ⟨rfl, fun _ => if_neg fun same => differs same.symm⟩
    | _ => exact ⟨rfl, fun _ => rfl⟩
  | _ => exact ⟨rfl, fun _ => rfl⟩

theorem Moment.Quiet.uncalled (uncalled : what.isCalled = false) (other : Nat) :
    (⟨id, world, what⟩ : Moment).Quiet other := by
  cases what with
  | called env call reply => cases uncalled
  | _ => exact ⟨rfl, fun _ => rfl⟩

namespace Pool

/-- The agreement the replica on a connection is about to be taken on with. -/
def handing (pool : Pool) (id : Nat) : Option Value := pool.stages[id]?.bind Stage.handing

/-- What becomes of a replica that is handed over to after a step. -/
inductive Hands [Platform] (server : Server) (pool : Pool) (choice : Choice) (moment : Moment) :
    Nat → Value → Prop where
  | still {id : Nat} {agreement : Value} (before : pool.handing id = some agreement)
      (quiet : moment.Quiet id) : Hands server pool choice moment id agreement
  /-- A command has been passed on to the others. -/
  | missed {id : Nat} {agreement : Value} (before : pool.handing id = some agreement)
      (nobody : pool.HandsOverApart choice → ∀ other ∈ pool.stages, other.handing = none) :
      Hands server pool choice moment id agreement
  | looked {id : Nat} (unsent : moment.what.sent = 0) (since : ∀ sent, moment.since id sent = [])
      (counted : pool.HandsOverApart choice → ∀ other ∈ pool.stages, other.owed = 0) :
      Hands server pool choice moment id (fullResync server pool.world.offset)

/-- A replica that is followed, and who it is at the other end. -/
structure Follows (pool : Pool) (replica : Replica) (follower : Follower) : Prop where
  member : replica ∈ pool.world.replicas
  isOpen : replica.closed = false
  isStage : pool.stages[replica.connection]? = some (.following follower)

/-- What becomes of a replica that is followed after a step. -/
inductive Serves (pool : Pool) (moment : Moment) : Replica → Follower → Prop where
  | still {replica : Replica} {follower : Follower} (before : pool.Follows replica follower)
      (quiet : moment.Quiet replica.connection) : Serves pool moment replica follower
  | sent {replica : Replica} {follower : Follower} {command : Value}
      (before : pool.Follows replica follower) (filled : command.encode ≠ [])
      (counted : moment.what.sent = command.encode.length)
      (since : ∀ sent, moment.since replica.connection sent = sent ++ [command.encode]) :
      Serves pool moment { replica with changes := replica.changes ++ [command.encode] } follower
  | tookIn {replica : Replica} {follower next : Follower} {change : Bytes}
      (before : pool.Follows replica follower) (quiet : moment.Quiet replica.connection)
      (queued : replica.changes[follower.taken]? = some change)
      (takesIn : follower.takeIn change = some next) : Serves pool moment replica next
  | reported {replica : Replica} {follower : Follower} {offset : Nat} {said : List Nat}
      (before : pool.Follows replica follower) (quiet : moment.Quiet replica.connection)
      (first : follower.said = offset :: said) :
      Serves pool moment { replica with reached := offset } { follower with said }
  | takenOn {id : Nat} {agreement : Value}
      (isStage : pool.stages[id]? = some (.handingOver agreement)) (quiet : moment.Quiet id) :
      Serves pool moment { connection := id } { agreement, offset := startsFrom agreement }

/-- A connection that has been asked something new is not being handed over to. -/
theorem Stage.handing_run [Platform] (server : Server) (client : Client) (asked value : Value) :
    (Stage.running asked (run server client value)).handing = none := by
  rcases run_replica server client value with replies | ⟨-, isPsync⟩
  · cases isProgram : run server client value with
    | call request resume => rfl
    | ret answered =>
      rw [isProgram] at replies
      obtain ⟨reply, isReply⟩ := replies
      obtain ⟨answer, client⟩ := answered
      cases isReply
      rfl
  · rw [isPsync]
    rfl

/-- A connection comes to be handed over to by looking at the offset for a `PSYNC`. -/
theorem Stage.handing_resume [Platform] {asked agreement : Value} {request : Call}
    {resume : request.Reply → Prog (Answer × Client)} {reply : request.Reply}
    (underway : Stage.Underway server asked (.call request resume))
    (hands : (Stage.running asked (resume reply)).handing = some agreement) :
    ∃ client, asksFor ["PSYNC"] asked ∧ Program.call request resume = psync server client := by
  rcases underway.answers with replies | ⟨isPsync, client, isProgram⟩ | ⟨_, _, isProgram⟩
  · cases isNext : resume reply with
    | call _ _ =>
      rw [isNext] at hands
      cases hands
    | ret answered =>
      have returns := replies reply
      rw [isNext] at returns hands
      obtain ⟨value, isReply⟩ := returns
      obtain ⟨answer, client⟩ := answered
      cases isReply
      cases hands
  · exact ⟨client, isPsync, isProgram⟩
  · cases isProgram

theorem hands_of_moves [Platform] (underway : pool.Underway server)
    (isStage : pool.stages[id]? = some stage)
    (moves : Stage.Moves server id pool.world stage move moved world what) {history : List Moment}
    {other : Nat} {agreement : Value}
    (handsTo : handing ⟨world, pool.stages.set id moved, history⟩ other = some agreement) :
    pool.Hands server (.turn id move) ⟨id, pool.world, what⟩ other agreement := by
  obtain ⟨found, isFound, hands⟩ := Option.bind_eq_some_iff.mp handsTo
  simp only [lookup_set isStage] at isFound
  split at isFound
  · rename_i here
    subst here
    cases isFound
    cases moves with
    | call performed =>
      obtain ⟨client, isPsync, isProgram⟩ :=
        Stage.handing_resume (underway _ _ (List.mem_of_getElem? isStage)) hands
      cases isProgram
      cases performed
      cases hands
      exact .looked rfl (fun _ => if_pos rfl) fun apart => (apart _ isStage).2 isPsync
    | ask client value =>
      rw [Stage.handing_run] at hands
      cases hands
    | handOver asked value client =>
      exact .still (by rw [handing, isStage]; exact hands) (.uncalled rfl _)
    | _ => cases hands
  · rename_i differs
    have before : pool.handing other = some agreement := by
      rw [handing, isFound]
      exact hands
    cases relays : what.relays with
    | false => exact .still before (.elsewhere relays differs)
    | true =>
      refine .missed before fun apart => ?_
      cases moves with
      | @call asked request resume env after reply performed =>
        cases request with
        | send command => exact (apart _ isStage).1 rfl
        | _ => cases relays
      | _ => cases relays

theorem serves_of_moves [Platform] (steady : pool.Steady server)
    (isStage : pool.stages[id]? = some stage)
    (moves : Stage.Moves server id pool.world stage move moved world what) {history : List Moment}
    {replica : Replica} {follower : Follower}
    (follows : Follows ⟨world, pool.stages.set id moved, history⟩ replica follower) :
    pool.Serves ⟨id, pool.world, what⟩ replica follower := by
  obtain ⟨member, isOpen, isFollower⟩ := follows
  simp only [lookup_set isStage] at isFollower
  split at isFollower
  · rename_i here
    have quiet (uncalled : what.isCalled = false) :
        (⟨id, pool.world, what⟩ : Moment).Quiet replica.connection := .uncalled uncalled _
    cases moves with
    | takeOn agreement =>
      rcases List.mem_append.mp member with old | new
      · exact absurd here (steady.tracked.fresh isStage replica old)
      · rw [List.mem_singleton.mp new]
        cases isFollower
        exact .takenOn isStage (.uncalled rfl _)
    | takeIn queued takesIn =>
      cases isFollower
      rw [← here, steady.tracked.queue_eq member] at queued
      exact .tookIn ⟨member, isOpen, here ▸ isStage⟩ (quiet rfl) queued takesIn
    | report first =>
      cases isFollower
      obtain ⟨old, isOld, rfl⟩ := List.mem_map.mp member
      simp only [if_pos here]
      exact .reported ⟨isOld, isOpen, here ▸ isStage⟩ (quiet rfl) first
    | _ => cases isFollower
  · rename_i differs
    have still (isOld : replica ∈ pool.world.replicas) (unsent : what.relays = false) :
        pool.Serves ⟨id, pool.world, what⟩ replica follower :=
      .still ⟨isOld, isOpen, isFollower⟩ (.elsewhere unsent differs)
    cases moves with
    | @call asked request resume env after reply performed =>
      cases perform_passed performed with
      | sent command queued same =>
        simp only [queued] at member
        obtain ⟨old, isFollowed, rfl⟩ := List.mem_map.mp member
        have somebody : pool.world.following.isEmpty = false :=
          List.isEmpty_eq_false_iff_exists_mem.mpr ⟨old, isFollowed⟩
        refine .sent ⟨(mem_following.mp isFollowed).1, isOpen, isFollower⟩ ?_ ?_ fun _ => rfl
        · exact ((steady.underway _ _ (List.mem_of_getElem? isStage)).send 0).1
        · simp [Happening.sent, somebody]
      | counted bytes same advanced => exact still (same ▸ member) rfl
      | aside unsent uncounted replicas same =>
        have notSent : (Happening.called env request reply).relays = false := by
          cases request with
          | send command => exact absurd rfl (unsent command)
          | _ => rfl
        rcases replicas with same | looked
        · exact still (same ▸ member) notSent
        · exact still (mem_following.mp (looked ▸ member)).1 notSent
    | panic performed =>
      obtain rfl := perform_panicked performed
      exact still member rfl
    | takeOn agreement =>
      rcases List.mem_append.mp member with old | new
      · exact still old rfl
      · exact absurd (by rw [List.mem_singleton.mp new]) differs
    | report first =>
      obtain ⟨old, isOld, rfl⟩ := List.mem_map.mp member
      simp only [if_neg differs] at still ⊢
      exact still isOld rfl
    | lose gone =>
      obtain ⟨⟨connection, changes, reached, closed⟩, isOld, rfl⟩ := List.mem_map.mp member
      simp only [Bool.or_eq_false_iff] at isOpen
      obtain ⟨rfl, elsewhere⟩ := isOpen
      simp only [elsewhere, Bool.or_false] at still ⊢
      exact still isOld rfl
    | _ => exact still member rfl

/-- What a step makes of the replicas handed over to, and of those followed. -/
theorem step_replicas [Platform] {next : Pool} {choice : Choice} (steady : pool.Steady server)
    (stepped : pool.step server choice = some next) :
    ∃ moment, next.history = pool.history ++ [moment] ∧
      (∀ id agreement, next.handing id = some agreement →
        pool.Hands server choice moment id agreement) ∧
      ∀ replica follower, next.Follows replica follower → pool.Serves moment replica follower := by
  obtain ⟨rfl, rfl⟩ | ⟨id, move, stage, moved, world, what, rfl, isStage, moves, rfl⟩ :=
    step_cases stepped
  · refine ⟨_, rfl, fun id agreement hands => ?_, fun replica follower follows => ?_⟩
    · obtain ⟨stage, isStage, hands⟩ := Option.bind_eq_some_iff.mp hands
      have isOld := lookup_of_accept isStage fun client isNew => by
        simp [isNew, Stage.handing] at hands
      exact .still (by rw [handing, isOld]; exact hands) (.uncalled rfl _)
    · exact .still ⟨follows.member, follows.isOpen,
        lookup_of_accept follows.isStage (by rintro _ ⟨⟩)⟩ (.uncalled rfl _)
  · exact ⟨_, rfl, fun _ _ => hands_of_moves steady.underway isStage moves,
      fun _ _ => serves_of_moves steady isStage moves⟩

/-! ## What a replica has been told and sent -/

/-- What a replica being handed over to has been told, and what those followed have been
sent. -/
structure Handed (server : Server) (pool : Pool) : Prop where
  handing : ∀ id agreement, pool.handing id = some agreement →
    agreement = fullResync server (sentBytes pool.history) ∧ sentSince id pool.history = []
  queued : ∀ replica follower, pool.Follows replica follower →
    replica.changes = sentSince replica.connection pool.history ∧
    ∃ offset, follower.agreement = fullResync server offset ∧
      offset + (replica.changes.map List.length).sum = sentBytes pool.history

theorem takeIn_agreement {follower next : Follower} {change : Bytes}
    (takesIn : follower.takeIn change = some next) : next.agreement = follower.agreement := by
  unfold Follower.takeIn at takesIn
  split at takesIn <;> cases takesIn
  rfl

theorem Handed.step [Platform] {next : Pool} {choice : Choice} (handed : pool.Handed server)
    (steady : pool.Steady server) (apart : pool.HandsOverApart choice)
    (stepped : pool.step server choice = some next) : next.Handed server := by
  obtain ⟨moment, isHistory, hands, serves⟩ := step_replicas steady stepped
  refine ⟨fun id agreement handing => ?_, fun replica follower follows => ?_⟩
  · rw [isHistory, sentBytes_concat, sentSince_concat]
    cases hands id agreement handing with
    | still before quiet =>
      rw [quiet.unsent, quiet.since]
      exact handed.handing id agreement before
    | missed before nobody =>
      obtain ⟨stage, isStage, hands⟩ := Option.bind_eq_some_iff.mp before
      simp [nobody apart stage (List.mem_of_getElem? isStage)] at hands
    | looked unsent since counted =>
      rw [unsent, since, steady.balanced.eq_offset (counted apart)]
      exact ⟨rfl, rfl⟩
  · rw [isHistory, sentBytes_concat, sentSince_concat]
    cases serves replica follower follows with
    | still before quiet =>
      rw [quiet.unsent, quiet.since]
      exact handed.queued replica follower before
    | @sent replica _ command before filled counted since =>
      obtain ⟨changes, offset, isAgreement, sum⟩ := handed.queued replica follower before
      rw [counted, since, ← changes]
      refine ⟨rfl, offset, isAgreement, ?_⟩
      simp only [List.map_append, List.sum_append, List.map_cons, List.map_nil, List.sum_cons,
        List.sum_nil]
      omega
    | @tookIn _ before _ change wasFollowed quiet queued takesIn =>
      rw [quiet.unsent, quiet.since, takeIn_agreement takesIn]
      exact handed.queued replica before wasFollowed
    | @reported old before _ _ wasFollowed quiet first =>
      rw [quiet.unsent, quiet.since]
      exact handed.queued old before wasFollowed
    | takenOn isStage quiet =>
      obtain ⟨isAgreement, nothing⟩ := handed.handing _ _ (by rw [Pool.handing, isStage]; rfl)
      rw [quiet.unsent, quiet.since, nothing]
      exact ⟨rfl, _, isAgreement, rfl⟩

end Pool

/-- Handing over loses nothing and agrees on where the history stands, as long as no
command is passed on between a `PSYNC` looking at the offset and the replica being taken
on, and no `PSYNC` looks at it between a command being passed on and being counted: what
has been passed on since is queued for the replica, and with nothing about to be counted
its count and the server's are the same. -/
theorem handover_loses_nothing [Platform] (server : Server) (store : State) (log : Bytes)
    (choices : List Choice) (pool : Pool)
    (ran : Run.after (Pool.step server) (.start store log) choices = some pool)
    (apart : Run.Meets (Pool.step server) Pool.HandsOverApart (.start store log) choices)
    (id : Nat) (follower : Follower)
    (follows : pool.stages[id]? = some (.following follower)) :
    (∃ replica ∈ pool.world.following, replica.connection = id) ∧
      ∀ replica ∈ pool.world.following, replica.connection = id →
        replica.changes = sentSince id pool.history ∧
        ∃ offset, follower.agreement = fullResync server offset ∧
          ((∀ stage ∈ pool.stages, stage.owed = 0) →
            offset + (replica.changes.map List.length).sum = pool.world.offset) := by
  have kept : pool.Steady server ∧ pool.Handed server := by
    refine Run.invariant (fun pool => pool.Steady server ∧ pool.Handed server) ?_
      ⟨Pool.steady_start server store log, by rintro _ _ ⟨⟩, fun _ _ follows => by
        cases follows.member⟩ apart ran
    intro before choice next ⟨steady, handed⟩ apart stepped
    exact ⟨steady.step stepped, handed.step steady apart stepped⟩
  obtain ⟨steady, handed⟩ := kept
  refine ⟨steady.tracked.held id follower follows, ?_⟩
  intro replica member sameConnection
  obtain ⟨isHeld, isOpen⟩ := mem_following.mp member
  obtain ⟨changes, offset, isAgreement, counted⟩ :=
    handed.queued replica follower ⟨isHeld, isOpen, sameConnection ▸ follows⟩
  rw [sameConnection] at changes
  refine ⟨changes, offset, isAgreement, fun settled => ?_⟩
  rw [counted, steady.balanced.eq_offset settled]

/-! ## A command passed on in between -/

/-- One replica after another is handed over to, and then a value is set. -/
def handoversApart : List Choice :=
  [.accept, .accept, .accept] ++ Choice.command 0 ["PSYNC", "?", "-1"] 1 ++ [.turn 0 .takeOn] ++
    Choice.command 1 ["PSYNC", "?", "-1"] 1 ++ [.turn 1 .takeOn] ++
    Choice.command 2 ["SET", "k", "v"] 4

/-- The value is set while the second replica is being handed over to. -/
def handoverRace : List Choice :=
  [.accept, .accept, .accept] ++ Choice.command 0 ["PSYNC", "?", "-1"] 1 ++ [.turn 0 .takeOn] ++
    Choice.command 1 ["PSYNC", "?", "-1"] 1 ++ Choice.command 2 ["SET", "k", "v"] 4 ++
    [.turn 1 .takeOn]

/-- Two replicas handed over to one after the other, and then a write. -/
theorem handover_loses_nothing_apart :
    ∃ pool follower,
      Run.after (@Pool.step Platform.ascii {}) (.start {} []) handoversApart = some pool ∧
      pool.stages[1]? = some (.following follower) ∧
      ∀ replica ∈ pool.world.following, replica.connection = 1 →
        replica.changes = sentSince 1 pool.history ∧
        ∃ offset, follower.agreement = fullResync {} offset ∧
          offset + (replica.changes.map List.length).sum = pool.world.offset := by
  have apart : Run.Meets (@Pool.step Platform.ascii {}) (@Pool.HandsOverApart Platform.ascii)
      (.start {} []) handoversApart := by decide +kernel
  obtain ⟨pool, ran, seen⟩ := (Option.any_eq_true
    (fun pool : Pool => pool.stages[1]?.any Stage.isFollowing &&
      pool.stages.all fun stage => stage.owed == 0)
    (Run.after (@Pool.step Platform.ascii {}) (.start {} []) handoversApart)).mp
      (by decide +kernel)
  simp only [Bool.and_eq_true, Option.any_eq_true, List.all_eq_true, beq_iff_eq] at seen
  obtain ⟨⟨stage, isStage, follows⟩, settled⟩ := seen
  obtain ⟨follower, rfl⟩ := Stage.exists_of_isFollowing follows
  refine ⟨pool, follower, ran, isStage, fun replica member sameConnection => ?_⟩
  obtain ⟨changes, offset, isAgreement, counted⟩ := (@handover_loses_nothing Platform.ascii {}
    {} [] handoversApart pool ran apart 1 follower isStage).2 replica member sameConnection
  exact ⟨changes, offset, isAgreement, counted settled⟩

/-- Whether a connection is followed from the very start. -/
def Stage.startsAtZero : Stage → Bool
  | .following follower => startsFrom follower.agreement == some 0
  | _ => false

/-- A write passed on while a second replica is being handed over to never reaches it, and
the replica is behind for good. -/
theorem handover_race_loses :
    ∃ pool follower replica,
      Run.after (@Pool.step Platform.ascii {}) (.start {} []) handoverRace = some pool ∧
      pool.stages[1]? = some (.following follower) ∧
      startsFrom follower.agreement = some 0 ∧
      (∀ stage ∈ pool.stages, stage.owed = 0) ∧
      pool.world.following[1]? = some replica ∧ replica.connection = 1 ∧
      replica.changes = [] ∧
      sentSince 1 pool.history = [(typed ["SET", "k", "v"]).encode] ∧
      pool.world.offset = 27 := by
  obtain ⟨pool, ran, seen⟩ := (Option.any_eq_true
    (fun pool : Pool =>
      pool.stages[1]?.any Stage.startsAtZero &&
      (pool.stages.all fun stage => stage.owed == 0) &&
      (pool.world.following[1]?.any fun replica =>
        replica.connection == 1 && replica.changes.isEmpty) &&
      sentSince 1 pool.history == [(typed ["SET", "k", "v"]).encode] &&
      pool.world.offset == 27)
    (Run.after (@Pool.step Platform.ascii {}) (.start {} []) handoverRace)).mp
      (by decide +kernel)
  simp only [Bool.and_eq_true, Option.any_eq_true, List.all_eq_true, beq_iff_eq,
    List.isEmpty_iff] at seen
  obtain ⟨⟨⟨⟨⟨stage, isStage, follows⟩, settled⟩, replica, isReplica, here, nothing⟩, sent⟩,
    counted⟩ := seen
  unfold Stage.startsAtZero at follows
  split at follows
  · rename_i follower
    exact ⟨pool, follower, replica, ran, isStage, by simpa using follows, settled, isReplica,
      here, nothing, sent, counted⟩
  · cases follows

end RedisServer
