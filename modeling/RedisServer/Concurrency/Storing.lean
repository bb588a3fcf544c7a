import RedisServer.Commands.Watching
import RedisServer.Concurrency.Replicating

/-!
# What the connections do to the store

Whatever has its turn, the store is asked one thing or nothing.  What it is asked is
never improper, so that what is known of single calls holds from turn to turn: the
store stays as it should be, and a key is touched only by what wrote to it.
-/

namespace RedisServer

variable {what : Happening} {after world : World} {server : Server} {id : Nat} {stage moved : Stage}
  {move : Move}

/-- Whether what happened changed a key. -/
def Happening.wrote (key : Bytes) : Happening → Bool
  | .called _ (.store call) reply => call.wrote key reply
  | _ => false

/-- Whether the store was asked something. -/
def Happening.onStore : Happening → Bool
  | .called _ (.store _) _ => true
  | _ => false

theorem Happening.unwritten (aside : what.onStore = false) (key : Bytes) :
    what.wrote key = false := by
  unfold wrote
  split
  · cases aside
  · rfl

/-- What may become of the store: it is asked something, or holds what it held. -/
inductive Stored (before after : State) : Happening → Prop where
  | asked {env : Env} {call : StoreCall} {reply : call.Reply}
      (performed : before.perform env.clock call = some (after, reply)) :
      Stored before after (.called env (.store call) reply)
  | aside {what : Happening} (notAsked : what.onStore = false)
      (entries : after.entries = before.entries) (changes : after.changes = before.changes) :
      Stored before after what

/-- Any other call leaves what the store holds alone. -/
theorem perform_entries {env : Env} {call : Call} {reply : call.Reply}
    (notStore : ∀ asked, call ≠ .store asked)
    (performed : world.perform env call = .done after reply) :
    after.store.entries = world.store.entries ∧
      after.store.changes = world.store.changes := by
  have treated := perform_treated performed
  generalize after.store = store at treated ⊢
  cases treated with
  | asked performed => exact absurd rfl (notStore _)
  | _ => exact ⟨rfl, rfl⟩

theorem perform_stored {env : Env} {call : Call} {reply : call.Reply}
    (performed : world.perform env call = .done after reply) :
    Stored world.store after.store (.called env call reply) := by
  have treated := perform_treated performed
  generalize after.store = store at treated ⊢
  cases treated with
  | asked held => exact .asked held
  | gaveUp isWaiting | received unawaited | released => exact .aside rfl rfl rfl
  | aside apart =>
    refine .aside ?_ rfl rfl
    cases call <;> first | rfl | cases apart

/-- What a connection's turn makes of the store. -/
theorem Stage.Moves.stored [Platform]
    (moves : Stage.Moves server id world stage move moved after what) :
    Stored world.store after.store what := by
  cases moves with
  | call performed => exact perform_stored performed
  | panic performed =>
    rw [perform_panicked performed]
    exact .aside rfl rfl rfl
  | _ => exact .aside rfl rfl rfl

/-- A connection in the middle of a command asks the store nothing improper. -/
def Stage.Asks : Stage → Prop
  | .running _ program => program.Keeps properly (fun _ _ => True) ()
  | _ => True

namespace Pool

/-- The store is as it should be and is asked nothing improper. -/
structure Proper (pool : Pool) : Prop where
  store : pool.world.store.Proper
  asks : ∀ stage ∈ pool.stages, stage.Asks

theorem proper_start {store : State} (proper : store.Proper) (log : Bytes) :
    (Pool.start store log).Proper := ⟨proper, nofun⟩

end Pool

theorem Stored.touched {before after : State} (proper : before.Proper)
    (stored : Stored before after what)
    (called : ∀ env call reply, what = .called env (.store call) reply → call.Proper) :
    ∃ now, (∀ key, State.Touched now before after key (what.wrote key)) ∧
      before.changes ≤ after.changes := by
  cases stored with
  | asked performed =>
    have touched := State.perform_touched proper (called _ _ _ rfl) performed
    exact ⟨_, fun key => (touched key).1, (touched []).2⟩
  | aside notAsked entries changes =>
    refine ⟨0, fun key => ?_, changes.ge⟩
    rw [Happening.unwritten notAsked]
    exact .left (.inl (by rw [entries]))

namespace Pool

/-- What a connection asks of the store on its turn is proper. -/
theorem Proper.called [Platform] {pool : Pool} (proper : pool.Proper)
    (isStage : pool.stages[id]? = some stage)
    (moves : Stage.Moves server id pool.world stage move moved after what) (env : Env)
    (call : StoreCall) (reply : call.Reply) (isCall : what = .called env (.store call) reply) :
    call.Proper := by
  cases moves with
  | @call asked request resume _ _ answer performed =>
    cases isCall
    exact (proper.asks _ (List.mem_of_getElem? isStage)).1
  | _ => cases isCall

/-- A key is touched by what wrote to it and by nothing else. -/
theorem Proper.touched [Platform] {pool : Pool} (proper : pool.Proper)
    (isStage : pool.stages[id]? = some stage)
    (moves : Stage.Moves server id pool.world stage move moved after what) :
    ∃ now, (∀ key, State.Touched now pool.world.store after.store key (what.wrote key)) ∧
      pool.world.store.changes ≤ after.store.changes :=
  moves.stored.touched proper.store (proper.called isStage moves)

theorem Proper.step [Platform] {server : Server} {pool next : Pool} {choice : Choice}
    (proper : pool.Proper) (stepped : pool.step server choice = some next) : next.Proper := by
  obtain ⟨rfl, rfl⟩ | ⟨id, move, stage, moved, world, what, rfl, isStage, moves, rfl⟩ :=
    step_cases stepped
  · refine ⟨⟨proper.store.cells, proper.store.stamps⟩, fun stage member => ?_⟩
    rcases List.mem_append.mp member with old | new
    · exact proper.asks stage old
    · cases List.mem_singleton.mp new
      exact True.intro
  · obtain ⟨now, touched, counted⟩ := proper.touched isStage moves
    refine ⟨proper.store.of_touched counted fun key => ⟨_, touched key⟩,
      fun other member => ?_⟩
    rcases List.mem_or_eq_of_mem_set member with old | rfl
    · exact proper.asks other old
    · cases moves with
      | ask client value => exact properly_suits.run True.intro server client value
      | @call asked request resume env after reply performed =>
        exact (proper.asks _ (List.mem_of_getElem? isStage)).2 reply
      | _ => exact True.intro

end Pool

end RedisServer
