import RedisServer.Commands.Passing
import RedisServer.Concurrency.Pool
import RedisServer.Server.Frames

/-!
# What is passed on while connections take turns

Whichever connections take turns, the bytes passed on so far are those counted and those
some connection has passed on and is about to count; and the replicas the server holds
are those at the other end of its connections.
-/

namespace RedisServer

variable {pool : Pool} {id : Nat} {asked : Value} {world : World} {server : Server} {stage : Stage}

/-! ## What a call does to the replicas -/

/-- What a call leaves of the replicas and of the count. -/
inductive Passed (world after : World) : (call : Call) → call.Reply → Prop where
  | sent (command : Value)
      (queued : after.replicas = world.following.map fun replica =>
        { replica with changes := replica.changes ++ [command.encode] })
      (same : after.offset = world.offset) :
      Passed world after (.send command)
        (if world.following.isEmpty then 0 else command.encode.length)
  | counted (bytes : Nat) (same : after.replicas = world.replicas)
      (advanced : after.offset = world.offset + bytes) :
      Passed world after (.advance bytes) ()
  | aside {call : Call} {reply : call.Reply} (unsent : ∀ command, call ≠ .send command)
      (uncounted : ∀ bytes, call ≠ .advance bytes)
      (replicas : after.replicas = world.replicas ∨ after.replicas = world.following)
      (same : after.offset = world.offset) :
      Passed world after call reply

theorem perform_passed {env : Env} {after : World} {call : Call} {reply : call.Reply}
    (performed : world.perform env call = .done after reply) : Passed world after call reply := by
  cases other : call.OnReplicas with
  | true =>
    cases call with
    | send command =>
      rw [perform_send] at performed
      cases performed
      exact .sent command rfl rfl
    | advance bytes =>
      cases performed
      exact .counted bytes rfl rfl
    | count | caughtUpTo _ =>
      cases performed
      exact .aside nofun nofun (.inr rfl) rfl
    | _ => cases other
  | false =>
    obtain ⟨replicas, offset⟩ := (perform_framed performed).replicas other
    refine .aside ?_ ?_ (.inl replicas) offset
    all_goals
      rintro _ rfl
      cases other

/-! ## What the connections are in the middle of -/

namespace Stage

/-- How much a connection has passed on and not counted yet. -/
def owed : Stage → Nat
  | .running _ (.call (.advance bytes) _) => bytes
  | _ => 0

/-- A program with nothing left to count does not start by counting. -/
theorem owed_of_keeps {program : Prog (Answer × Client)}
    (keeps : program.Keeps passing (fun phase _ => phase = none) none) :
    (Stage.running asked program).owed = 0 := by
  cases program with
  | ret value => rfl
  | call request rest =>
    cases request with
    | advance bytes => exact keeps.1.elim
    | _ => rfl

/-- What is left of a command a connection is in the middle of: it counts what it passes
on, and it makes a replica of its client only in answer to a `PSYNC`. -/
structure Underway [Platform] (server : Server) (asked : Value)
    (program : Prog (Answer × Client)) : Prop where
  passes : ∃ phase, program.Keeps passing (fun phase _ => phase = none) phase
  answers : (program.Returns fun answered => ∃ reply, answered.1 = .reply reply) ∨
    (asksFor ["PSYNC"] asked ∧ ∃ client, program = psync server client) ∨
    ∃ offset client, program = .ret (.replica (fullResync server offset), client)

theorem underway_run [Platform] (server : Server) (client : Client) (asked : Value) :
    Underway server asked (run server client asked) where
  passes := ⟨none, passing_suits.run rfl server client asked⟩
  answers := by
    rcases run_replica server client asked with replies | ⟨isPsync, isProgram⟩
    · exact .inl replies
    · exact .inr (.inl ⟨isPsync, client, isProgram⟩)

theorem Underway.resume [Platform] {request : Call}
    {resume : request.Reply → Prog (Answer × Client)}
    (underway : Underway server asked (.call request resume)) (reply : request.Reply) :
    Underway server asked (resume reply) where
  passes := by
    obtain ⟨phase, keeps⟩ := underway.passes
    exact ⟨_, keeps.2 reply⟩
  answers := by
    rcases underway.answers with replies | ⟨-, client, isProgram⟩ | ⟨offset, client, isProgram⟩
    · exact .inl (replies reply)
    · cases isProgram
      exact .inr (.inr ⟨reply, client, rfl⟩)
    · cases isProgram

/-- A command passed on is not empty, and is counted next. -/
theorem Underway.send [Platform] {command : Value} {resume : Nat → Prog (Answer × Client)}
    (underway : Underway server asked (.call (.send command) resume)) (bytes : Nat) :
    command.encode ≠ [] ∧ ∃ rest, resume bytes = .call (.advance bytes) rest := by
  obtain ⟨_ | owed, keeps⟩ := underway.passes
  · refine ⟨keeps.1, ?_⟩
    have next := keeps.2 bytes
    cases isNext : resume bytes with
    | ret value =>
      rw [isNext] at next
      cases next
    | call request rest =>
      rw [isNext] at next
      obtain rfl := next.1
      exact ⟨rest, rfl⟩
  · cases keeps.1

/-- What is counted comes right after what was passed on. -/
theorem Underway.owed_resume [Platform] {request : Call}
    {resume : request.Reply → Prog (Answer × Client)}
    (underway : Underway server asked (.call request resume)) (reply : request.Reply)
    (unsent : ∀ command, request ≠ .send command) :
    (Stage.running asked (resume reply)).owed = 0 := by
  obtain ⟨phase, keeps⟩ := underway.passes
  refine owed_of_keeps ?_
  have next := keeps.2 reply
  cases request with
  | send command => exact absurd rfl (unsent command)
  | _ => exact next

end Stage

namespace Pool

/-- The commands the connections are in the middle of. -/
def Underway [Platform] (server : Server) (pool : Pool) : Prop :=
  ∀ asked program, .running asked program ∈ pool.stages → Stage.Underway server asked program

theorem mem_accept {program : Prog (Answer × Client)}
    (member : .running asked program ∈ pool.accept.stages) :
    .running asked program ∈ pool.stages := by
  rcases List.mem_append.mp member with old | new
  · exact old
  · cases List.mem_singleton.mp new

theorem Underway.step [Platform] {server : Server} {pool next : Pool} {choice : Choice}
    (underway : pool.Underway server) (stepped : pool.step server choice = some next) :
    next.Underway server := by
  obtain ⟨rfl, rfl⟩ | ⟨id, move, stage, moved, world, what, rfl, isStage, moves, rfl⟩ :=
    step_cases stepped
  · exact fun asked program member => underway asked program (mem_accept member)
  · intro asked program member
    rcases List.mem_or_eq_of_mem_set member with old | new
    · exact underway asked program old
    · have here := List.mem_of_getElem? isStage
      cases moves with
      | ask client value =>
        cases new
        exact Stage.underway_run server client _
      | @call _ request resume env after reply performed =>
        cases new
        exact (underway _ _ here).resume reply
      | _ => cases new

end Pool

/-! ## The account -/

/-- How many bytes something that happened has passed on. -/
def Happening.sent : Happening → Nat
  | .called _ (.send _) bytes => bytes
  | _ => 0

/-- How many bytes have been passed on. -/
def sentBytes (history : List Moment) : Nat := (history.map fun moment => moment.what.sent).sum

@[simp] theorem sentBytes_concat (history : List Moment) (moment : Moment) :
    sentBytes (history ++ [moment]) = sentBytes history + moment.what.sent := by
  simp [sentBytes]

theorem sum_map_set {α : Type} (weight : α → Nat) {items : List α} {index : Nat} {old : α}
    (isOld : items[index]? = some old) (new : α) :
    ((items.set index new).map weight).sum + weight old =
      (items.map weight).sum + weight new := by
  induction items generalizing index with
  | nil => cases isOld
  | cons item items ih =>
    cases index with
    | zero =>
      cases isOld
      simp only [List.set_cons_zero, List.map_cons, List.sum_cons]
      omega
    | succ index =>
      have rest := ih isOld
      simp only [List.set_cons_succ, List.map_cons, List.sum_cons]
      omega

namespace Pool

/-- What has been passed on has been counted, but for what some connection is about to
count. -/
def Balanced (pool : Pool) : Prop :=
  sentBytes pool.history = pool.world.offset + (pool.stages.map Stage.owed).sum

theorem Balanced.step [Platform] {server : Server} {pool next : Pool} {choice : Choice}
    (balanced : pool.Balanced) (underway : pool.Underway server)
    (stepped : pool.step server choice = some next) : next.Balanced := by
  unfold Balanced at balanced ⊢
  obtain ⟨rfl, rfl⟩ | ⟨id, move, stage, moved, world, what, rfl, isStage, moves, rfl⟩ :=
    step_cases stepped
  · simpa [accept, Happening.sent, Stage.owed] using balanced
  · have moved := sum_map_set Stage.owed isStage moved
    have here := List.mem_of_getElem? isStage
    simp only [sentBytes_concat]
    cases moves with
    | @call asked request resume env after reply performed =>
      have fits := underway _ _ here
      cases perform_passed performed with
      | sent command queued same =>
        obtain ⟨-, rest, isNext⟩ := fits.send
          (if pool.world.following.isEmpty then 0 else command.encode.length)
        rw [isNext] at moved ⊢
        simp only [Stage.owed, Happening.sent] at moved ⊢
        omega
      | counted bytes same advanced =>
        rw [fits.owed_resume () (by simp)] at moved
        simp only [Stage.owed, Happening.sent] at moved ⊢
        omega
      | aside unsent uncounted replicas same =>
        rw [fits.owed_resume reply unsent] at moved
        have unowed : (Stage.running asked (.call request resume)).owed = 0 := by
          cases request with
          | advance bytes => exact absurd rfl (uncounted bytes)
          | _ => rfl
        have unpassed : (Happening.called env request reply).sent = 0 := by
          cases request with
          | send command => exact absurd rfl (unsent command)
          | _ => rfl
        omega
    | @panic asked request resume env after performed =>
      obtain rfl := perform_panicked performed
      have unowed : (Stage.running asked (.call request resume)).owed = 0 := by
        cases request with
        | advance bytes => cases performed
        | _ => rfl
      simp only [World.forget, Happening.sent, Stage.owed] at moved unowed ⊢
      omega
    | ask client value =>
      rw [Stage.owed_of_keeps (passing_suits.run rfl server client value)] at moved
      simp only [Happening.sent, Stage.owed] at moved ⊢
      omega
    | _ =>
      simp only [World.forget, World.takeOn, World.letGo, World.reached, Happening.sent,
        Stage.owed] at moved ⊢
      omega

/-- With nothing about to be counted, what has been passed on is what has been counted. -/
theorem Balanced.eq_offset (balanced : pool.Balanced)
    (counted : ∀ stage ∈ pool.stages, stage.owed = 0) :
    sentBytes pool.history = pool.world.offset := by
  have nothing : (pool.stages.map Stage.owed).sum = 0 := by
    rw [List.sum_eq_zero_iff]
    exact List.forall_mem_map.mpr counted
  rw [balanced, nothing, Nat.add_zero]

end Pool

/-! ## Who is followed -/

/-- The same replicas with something else about them, those that have hung up perhaps no
longer among them. -/
structure Carried (before after : List Replica) : Prop where
  sublist : (after.map Replica.connection).Sublist (before.map Replica.connection)
  known : ∀ replica ∈ after, ∃ old ∈ before,
    old.connection = replica.connection ∧ old.closed = replica.closed
  stays : ∀ old ∈ before, old.closed = false → ∃ replica ∈ after,
    replica.connection = old.connection ∧ replica.closed = false

theorem Carried.map {replicas : List Replica} {change : Replica → Replica}
    (sameConnection : ∀ replica, (change replica).connection = replica.connection)
    (sameState : ∀ replica, (change replica).closed = replica.closed) :
    Carried replicas (replicas.map change) where
  sublist := by simp [Function.comp_def, sameConnection]
  known replica member := by
    obtain ⟨old, isOld, rfl⟩ := List.mem_map.mp member
    exact ⟨old, isOld, (sameConnection old).symm, (sameState old).symm⟩
  stays old isOld isOpen :=
    ⟨change old, List.mem_map_of_mem isOld, sameConnection old, (sameState old).trans isOpen⟩

theorem Carried.refl (replicas : List Replica) : Carried replicas replicas := by
  simpa using @Carried.map replicas id (fun _ => rfl) fun _ => rfl

theorem Carried.following (world : World) : Carried world.replicas world.following where
  sublist := List.Sublist.map _ List.filter_sublist
  known replica member := ⟨replica, (mem_following.mp member).1, rfl, rfl⟩
  stays old isOld isOpen := ⟨old, mem_following.mpr ⟨isOld, isOpen⟩, rfl, isOpen⟩

theorem Carried.trans {first second third : List Replica} (one : Carried first second)
    (two : Carried second third) : Carried first third where
  sublist := two.sublist.trans one.sublist
  known replica member := by
    obtain ⟨middle, isMiddle, sameConnection, sameState⟩ := two.known replica member
    obtain ⟨old, isOld, alsoConnection, alsoState⟩ := one.known middle isMiddle
    exact ⟨old, isOld, alsoConnection.trans sameConnection, alsoState.trans sameState⟩
  stays old isOld isOpen := by
    obtain ⟨middle, isMiddle, sameConnection, stillOpen⟩ := one.stays old isOld isOpen
    obtain ⟨replica, member, alsoConnection, alsoOpen⟩ := two.stays middle isMiddle stillOpen
    exact ⟨replica, member, alsoConnection.trans sameConnection, alsoOpen⟩

theorem Passed.carried {after : World} {call : Call} {reply : call.Reply}
    (passed : Passed world after call reply) : Carried world.replicas after.replicas := by
  cases passed with
  | sent command queued same =>
    rw [queued]
    exact (Carried.following world).trans (.map (fun _ => rfl) fun _ => rfl)
  | counted bytes same advanced =>
    rw [same]
    exact .refl _
  | aside unsent uncounted replicas same =>
    rcases replicas with same | looked
    · rw [same]
      exact .refl _
    · rw [looked]
      exact .following world

/-- Whether a connection carries what is queued for a replica. -/
def Stage.isFollowing : Stage → Bool
  | .following _ => true
  | _ => false

theorem Stage.exists_of_isFollowing (follows : stage.isFollowing) :
    ∃ follower, stage = .following follower := by
  cases stage with
  | following follower => exact ⟨follower, rfl⟩
  | _ => cases follows

namespace Pool

/-- The replicas the server holds, open or not, are those at the other end of its
connections. -/
structure Tracked (pool : Pool) : Prop where
  distinct : (pool.world.replicas.map Replica.connection).Nodup
  isOpen : ∀ replica ∈ pool.world.replicas, replica.closed = false →
    ∃ follower, pool.stages[replica.connection]? = some (.following follower)
  isClosed : ∀ replica ∈ pool.world.replicas, replica.closed = true →
    pool.stages[replica.connection]? = some .gone
  held : ∀ id follower, pool.stages[id]? = some (.following follower) →
    ∃ replica ∈ pool.world.following, replica.connection = id

/-- A turn that neither takes a replica on nor loses one. -/
theorem Tracked.carried (tracked : pool.Tracked) {moved : Stage}
    (isStage : pool.stages[id]? = some stage) (notGone : stage ≠ .gone)
    (same : moved.isFollowing = stage.isFollowing)
    (carried : Carried pool.world.replicas world.replicas) (history : List Moment) :
    Tracked ⟨world, pool.stages.set id moved, history⟩ where
  distinct := tracked.distinct.sublist carried.sublist
  isOpen replica member isOpen := by
    obtain ⟨old, isOld, sameConnection, sameState⟩ := carried.known replica member
    obtain ⟨follower, isFollower⟩ := tracked.isOpen old isOld (sameState.trans isOpen)
    rw [sameConnection] at isFollower
    simp only [lookup_set isStage]
    split
    · rename_i here
      rw [here, isStage, Option.some.injEq] at isFollower
      rw [isFollower] at same
      obtain ⟨next, isNext⟩ := Stage.exists_of_isFollowing same
      exact ⟨next, by rw [isNext]⟩
    · exact ⟨follower, isFollower⟩
  isClosed replica member isClosed := by
    obtain ⟨old, isOld, sameConnection, sameState⟩ := carried.known replica member
    have gone := tracked.isClosed old isOld (sameState.trans isClosed)
    rw [sameConnection] at gone
    simp only [lookup_set isStage]
    split
    · rename_i here
      rw [here, isStage, Option.some.injEq] at gone
      exact absurd gone notGone
    · exact gone
  held other follower isFollower := by
    have before : ∃ old, pool.stages[other]? = some (.following old) := by
      simp only [lookup_set isStage] at isFollower
      split at isFollower
      · rename_i here
        rw [Option.some.injEq] at isFollower
        rw [isFollower] at same
        obtain ⟨old, isOld⟩ := Stage.exists_of_isFollowing same.symm
        exact ⟨old, by rw [here, isStage, isOld]⟩
      · exact ⟨follower, isFollower⟩
    obtain ⟨old, isOld⟩ := before
    obtain ⟨held, isHeld, rfl⟩ := tracked.held other old isOld
    obtain ⟨member, isOpen⟩ := mem_following.mp isHeld
    obtain ⟨replica, isReplica, sameConnection, stillOpen⟩ := carried.stays held member isOpen
    exact ⟨replica, mem_following.mpr ⟨isReplica, stillOpen⟩, sameConnection⟩

/-- No replica is held for a connection that is still being handed over to. -/
theorem Tracked.fresh (tracked : pool.Tracked) {agreement : Value}
    (isStage : pool.stages[id]? = some (.handingOver agreement)) :
    ∀ replica ∈ pool.world.replicas, replica.connection ≠ id := by
  rintro replica member rfl
  cases state : replica.closed with
  | false =>
    obtain ⟨other, isOther⟩ := tracked.isOpen replica member state
    simp [isStage] at isOther
  | true =>
    have gone := tracked.isClosed replica member state
    simp [isStage] at gone

theorem Tracked.takeOn (tracked : pool.Tracked) {agreement : Value}
    (isStage : pool.stages[id]? = some (.handingOver agreement)) (follower : Follower)
    (history : List Moment) :
    Tracked ⟨pool.world.takeOn id, pool.stages.set id (.following follower), history⟩ := by
  have fresh := tracked.fresh isStage
  refine ⟨?_, ?_, ?_, ?_⟩
  · simp only [World.takeOn, List.map_append, List.map_cons, List.map_nil]
    refine List.nodup_append.mpr ⟨tracked.distinct, List.nodup_singleton _, ?_⟩
    intro connection known other isNew
    obtain ⟨replica, member, rfl⟩ := List.mem_map.mp known
    rw [List.mem_singleton.mp isNew]
    exact fresh replica member
  · intro replica member isOpen
    simp only [lookup_set isStage]
    rcases List.mem_append.mp member with old | new
    · rw [if_neg (fresh replica old)]
      exact tracked.isOpen replica old isOpen
    · rw [List.mem_singleton.mp new, if_pos rfl]
      exact ⟨follower, rfl⟩
  · intro replica member isClosed
    simp only [lookup_set isStage]
    rcases List.mem_append.mp member with old | new
    · rw [if_neg (fresh replica old)]
      exact tracked.isClosed replica old isClosed
    · rw [List.mem_singleton.mp new] at isClosed
      cases isClosed
  · intro other follower isFollower
    simp only [lookup_set isStage] at isFollower
    split at isFollower
    · rename_i here
      refine ⟨{ connection := id }, mem_following.mpr ⟨?_, rfl⟩, here.symm⟩
      exact List.mem_append_right _ (List.mem_singleton_self _)
    · obtain ⟨replica, isHeld, sameConnection⟩ := tracked.held other follower isFollower
      obtain ⟨member, isOpen⟩ := mem_following.mp isHeld
      exact ⟨replica, mem_following.mpr ⟨List.mem_append_left _ member, isOpen⟩, sameConnection⟩

theorem Tracked.lose (tracked : pool.Tracked) {follower : Follower}
    (isStage : pool.stages[id]? = some (.following follower)) (history : List Moment) :
    Tracked ⟨(pool.world.letGo id).forget id, pool.stages.set id .gone, history⟩ := by
  refine ⟨?_, ?_, ?_, ?_⟩
  · simpa [World.forget, World.letGo, Function.comp_def] using tracked.distinct
  · intro replica member isOpen
    obtain ⟨old, isOld, rfl⟩ := List.mem_map.mp member
    simp only [Bool.or_eq_false_iff, beq_eq_false_iff_ne] at isOpen
    simp only [lookup_set isStage, if_neg isOpen.2]
    exact tracked.isOpen old isOld isOpen.1
  · intro replica member isClosed
    obtain ⟨old, isOld, rfl⟩ := List.mem_map.mp member
    simp only [Bool.or_eq_true, beq_iff_eq] at isClosed
    simp only [lookup_set isStage]
    split
    · rfl
    · rename_i other
      rcases isClosed with wasClosed | here
      · exact tracked.isClosed old isOld wasClosed
      · exact absurd here other
  · intro other follower isFollower
    simp only [lookup_set isStage] at isFollower
    split at isFollower
    · cases isFollower
    · rename_i differs
      obtain ⟨replica, isHeld, rfl⟩ := tracked.held other follower isFollower
      obtain ⟨member, isOpen⟩ := mem_following.mp isHeld
      refine ⟨_, mem_following.mpr ⟨List.mem_map_of_mem member, ?_⟩, rfl⟩
      simp [isOpen, differs]

theorem lookup_accept (isStage : pool.stages[id]? = some stage) :
    pool.accept.stages[id]? = some stage := by
  obtain ⟨within, -⟩ := List.getElem?_eq_some_iff.mp isStage
  rw [← isStage]
  exact List.getElem?_append_left within

/-- A connection that has been asked something is not the one just made. -/
theorem lookup_of_accept (isStage : pool.accept.stages[id]? = some stage)
    (known : ∀ client, stage ≠ .idle client) : pool.stages[id]? = some stage := by
  simp only [accept, List.getElem?_append] at isStage
  split at isStage
  · exact isStage
  · exact absurd (List.mem_singleton.mp (List.mem_of_getElem? isStage)) (known _)

theorem Tracked.accept (tracked : pool.Tracked) : pool.accept.Tracked where
  distinct := tracked.distinct
  isOpen replica member isOpen := by
    obtain ⟨follower, isFollower⟩ := tracked.isOpen replica member isOpen
    exact ⟨follower, lookup_accept isFollower⟩
  isClosed replica member isClosed := lookup_accept (tracked.isClosed replica member isClosed)
  held id follower isFollower :=
    tracked.held id follower (lookup_of_accept isFollower (by rintro _ ⟨⟩))

theorem Tracked.step [Platform] {server : Server} {pool next : Pool} {choice : Choice}
    (tracked : pool.Tracked) (stepped : pool.step server choice = some next) :
    next.Tracked := by
  obtain ⟨rfl, rfl⟩ | ⟨id, move, stage, moved, world, what, rfl, isStage, moves, rfl⟩ :=
    step_cases stepped
  · exact tracked.accept
  · cases moves with
    | takeOn agreement => exact tracked.takeOn isStage _ _
    | lose follower => exact tracked.lose isStage _
    | call performed =>
      refine tracked.carried isStage nofun ?_ (perform_passed performed).carried _
      rfl
    | panic performed =>
      obtain rfl := perform_panicked performed
      refine tracked.carried isStage nofun ?_ ?_ _
      · rfl
      · exact .refl _
    | report first =>
      refine tracked.carried isStage nofun ?_ ?_ _
      · rfl
      · exact .map (fun _ => rfl) fun _ => rfl
    | _ =>
      refine tracked.carried isStage nofun ?_ ?_ _
      · rfl
      · exact .refl _

/-- What holds of the replicas whichever connections take turns. -/
structure Steady [Platform] (server : Server) (pool : Pool) : Prop where
  underway : pool.Underway server
  balanced : pool.Balanced
  tracked : pool.Tracked

theorem steady_start [Platform] (server : Server) (store : State) (log : Bytes) :
    (start store log).Steady server where
  underway := nofun
  balanced := rfl
  tracked := ⟨List.nodup_nil, nofun, nofun, nofun⟩

theorem Steady.step [Platform] {server : Server} {pool next : Pool} {choice : Choice}
    (steady : pool.Steady server) (stepped : pool.step server choice = some next) :
    next.Steady server where
  underway := steady.underway.step stepped
  balanced := steady.balanced.step steady.underway stepped
  tracked := steady.tracked.step stepped

end Pool

end RedisServer
