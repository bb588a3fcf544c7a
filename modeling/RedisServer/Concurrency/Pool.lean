import RedisServer.Lib.Run
import RedisServer.Server.Following
import RedisServer.Server.Service

/-!
# Connections served at the same time

Each connection is a task of its own.  A task gives way at every call on what the
connections share, so that in between any other may have its turn; a choice says whose
turn it is and what the environment makes of it.  A connection that turns into a
replica's is taken on only after the dataset has been written, and from then on carries
what is queued for the replica at its other end.

Beside the state stands what has happened so far, and what was shared at the time.
-/

namespace RedisServer

/-! ## The replica at the other end -/

/-- How far along the history a handover is, as a replica reads it. -/
def handoverFrom (agreement : String) : Option Nat :=
  if "FULLRESYNC ".toList <+: agreement.toList then
    (splitOnce ' ' (String.ofList (agreement.toList.drop "FULLRESYNC ".length))).bind
      fun (_history, offset) => parseU64 offset
  else none

/-- Where a replica starts counting, or `none` if it makes nothing of the agreement. -/
def startsFrom : Value → Option Nat
  | .sequence (.simpleString agreement :: _) => handoverFrom agreement
  | _ => none

/-- A replica at the other end of its connection: the agreement it follows on, how far
along the history it is, how many of the commands queued for it it has taken in, and
what it has said that has not been heard yet. -/
structure Follower where
  agreement : Value
  offset : Option Nat
  taken : Nat := 0
  said : List Nat := []

/-- Takes in a command, and says how far it has got first if that is what it is asked. -/
def Follower.takeIn (follower : Follower) (change : Bytes) : Option Follower :=
  match follower.offset, parse change with
  | some offset, .ok (some (command, length)) =>
    some
      { follower with
        offset := some (offset + length)
        taken := follower.taken + 1
        said := if asksHowFar command then follower.said ++ [offset] else follower.said }
  | _, _ => none

/-! ## One connection -/

/-- Where a connection stands. -/
inductive Stage where
  | idle (client : Client)
  /-- In the middle of the command it was asked. -/
  | running (asked : Value) (program : Prog (Answer × Client))
  /-- The dataset has been written, and the replica is about to be taken on. -/
  | handingOver (agreement : Value)
  | following (follower : Follower)
  | gone

/-- What a connection may do when its turn comes. -/
inductive Move where
  | ask (value : Value)
  | call (env : Env)
  | answer
  /-- Writes out a message that has been handed to it. -/
  | hear
  | takeOn
  | takeIn
  | report
  | hangUp

/-- What a connection has done. -/
inductive Happening where
  | accepted
  | asked (value : Value)
  | called (env : Env) (call : Call) (reply : call.Reply)
  | panicked
  | answered (answer : Answer)
  | heard (message : Bytes)
  | takenOn
  | tookIn
  | reported (offset : Nat)
  | hungUp

def Happening.isCalled : Happening → Bool
  | .called _ _ _ => true
  | _ => false

/-- What has been queued for the replica on a connection. -/
def World.queue (world : World) (id : Nat) : List Bytes :=
  ((world.replicas.find? fun replica => replica.connection = id).map Replica.changes).getD []

/-- What a move makes of a connection and of what is shared.  A write that fails, and a
client that hangs up between two commands, ends the connection. -/
def Stage.move [Platform] (server : Server) (id : Nat) (world : World) :
    Stage → Move → Option (Stage × World × Happening)
  | .idle client, .ask value =>
    some (.running value (run server client value), world, .asked value)
  | .idle client, .hear =>
    match world.mail[id]? with
    | some (message :: messages) =>
      some (.idle client, { world with mail := world.mail.insert id messages },
        .heard message)
    | _ => none
  | .idle _, .hangUp => some (.gone, world.forget id, .hungUp)
  | .running asked (.call request resume), .call env =>
    match world.perform env request with
    | .stuck => none
    | .panicked world => some (.gone, world.forget id, .panicked)
    | .done world reply =>
      some (.running asked (resume reply), world, .called env request reply)
  | .running _ (.ret (.reply value, client)), .answer =>
    some (.idle client, world, .answered (.reply value))
  | .running _ (.ret (.replica value, _)), .answer =>
    some (.handingOver value, world, .answered (.replica value))
  | .running _ (.ret _), .hangUp => some (.gone, world.forget id, .hungUp)
  | .handingOver agreement, .takeOn =>
    some (.following { agreement, offset := startsFrom agreement }, world.takeOn id, .takenOn)
  | .following follower, .takeIn =>
    (((world.queue id)[follower.taken]?).bind follower.takeIn).map fun follower =>
      (.following follower, world, .tookIn)
  | .following follower, .report =>
    match follower.said with
    | [] => none
    | offset :: said =>
      some (.following { follower with said }, world.reached id offset, .reported offset)
  | .following _, .hangUp => some (.gone, (world.letGo id).forget id, .hungUp)
  | _, _ => none

/-! ## All of them -/

/-- Something that has happened: on which connection, and what was shared just before. -/
structure Moment where
  id : Nat
  world : World
  what : Happening

/-- The connections of a server, each known by its place in the list, and all that has
happened so far. -/
structure Pool where
  world : World := {}
  stages : List Stage := []
  history : List Moment := []

/-- A connection is accepted, or has its turn. -/
inductive Choice where
  | accept
  | turn (id : Nat) (move : Move)

namespace Pool

/-- A server about to take its first connection, with what it has read back from disk. -/
def start (store : State) (log : Bytes) : Pool := { world := { store, log } }

/-- A connection just made.  It is let in from the start if no password is wanted. -/
def accept (pool : Pool) : Pool :=
  let id := pool.stages.length
  { world := { pool.world with mail := pool.world.mail.insert id [] }
    stages := pool.stages ++
      [.idle
        { subscriptions := { listener := some id }
          authenticated := pool.world.passwords.isEmpty }]
    history := pool.history ++ [⟨id, pool.world, .accepted⟩] }

def step [Platform] (server : Server) (pool : Pool) : Choice → Option Pool
  | .accept => some pool.accept
  | .turn id move =>
    pool.stages[id]?.bind fun stage =>
      (stage.move server id pool.world move).map fun (stage, world, what) =>
        { world
          stages := pool.stages.set id stage
          history := pool.history ++ [⟨id, pool.world, what⟩] }

end Pool

/-! ## What a step can be -/

/-- The moves there are. -/
inductive Stage.Moves [Platform] (server : Server) (id : Nat) (world : World) :
    Stage → Move → Stage → World → Happening → Prop where
  | ask (client : Client) (value : Value) :
      Moves server id world (.idle client) (.ask value)
        (.running value (run server client value)) world (.asked value)
  | hear (client : Client) {message : Bytes} {messages : List Bytes}
      (waiting : world.mail[id]? = some (message :: messages)) :
      Moves server id world (.idle client) .hear (.idle client)
        { world with mail := world.mail.insert id messages } (.heard message)
  | leave (client : Client) :
      Moves server id world (.idle client) .hangUp .gone (world.forget id) .hungUp
  | call {asked : Value} {request : Call} {resume : request.Reply → Prog (Answer × Client)}
      {env : Env} {after : World} {reply : request.Reply}
      (performed : world.perform env request = .done after reply) :
      Moves server id world (.running asked (.call request resume)) (.call env)
        (.running asked (resume reply)) after (.called env request reply)
  | panic {asked : Value} {request : Call} {resume : request.Reply → Prog (Answer × Client)}
      {env : Env} {after : World} (performed : world.perform env request = .panicked after) :
      Moves server id world (.running asked (.call request resume)) (.call env)
        .gone (after.forget id) .panicked
  | answer (asked value : Value) (client : Client) :
      Moves server id world (.running asked (.ret (.reply value, client))) .answer
        (.idle client) world (.answered (.reply value))
  | handOver (asked value : Value) (client : Client) :
      Moves server id world (.running asked (.ret (.replica value, client))) .answer
        (.handingOver value) world (.answered (.replica value))
  | fail (asked : Value) (answered : Answer × Client) :
      Moves server id world (.running asked (.ret answered)) .hangUp .gone
        (world.forget id) .hungUp
  | takeOn (agreement : Value) :
      Moves server id world (.handingOver agreement) .takeOn
        (.following { agreement, offset := startsFrom agreement }) (world.takeOn id) .takenOn
  | takeIn {follower next : Follower} {change : Bytes}
      (queued : (world.queue id)[follower.taken]? = some change)
      (takesIn : follower.takeIn change = some next) :
      Moves server id world (.following follower) .takeIn (.following next) world .tookIn
  | report {follower : Follower} {offset : Nat} {said : List Nat}
      (first : follower.said = offset :: said) :
      Moves server id world (.following follower) .report
        (.following { follower with said }) (world.reached id offset) (.reported offset)
  | lose (follower : Follower) :
      Moves server id world (.following follower) .hangUp .gone
        ((world.letGo id).forget id) .hungUp

theorem Stage.moves_of_move [Platform] {server : Server} {id : Nat} {world after : World}
    {stage next : Stage} {move : Move} {what : Happening}
    (moved : stage.move server id world move = some (next, after, what)) :
    Stage.Moves server id world stage move next after what := by
  unfold Stage.move at moved
  split at moved
  · cases moved
    exact .ask _ _
  · split at moved
    · cases moved
      exact .hear _ ‹_›
    · cases moved
  · cases moved
    exact .leave _
  · rename_i request resume env
    split at moved
    · cases moved
    · cases moved
      exact .panic ‹_›
    · cases moved
      exact .call ‹_›
  · cases moved
    exact .answer _ _ _
  · cases moved
    exact .handOver _ _ _
  · cases moved
    exact .fail _ _
  · cases moved
    exact .takeOn _
  · obtain ⟨follower, takenIn, isNext⟩ := Option.map_eq_some_iff.mp moved
    obtain ⟨change, queued, takesIn⟩ := Option.bind_eq_some_iff.mp takenIn
    cases isNext
    exact .takeIn queued takesIn
  · split at moved
    · cases moved
    · cases moved
      exact .report ‹_›
  · cases moved
    exact .lose _
  · cases moved

theorem Stage.Moves.move_eq [Platform] {server : Server} {id : Nat} {world after : World}
    {stage next : Stage} {move : Move} {what : Happening}
    (moves : Stage.Moves server id world stage move next after what) :
    stage.move server id world move = some (next, after, what) := by
  cases moves with
  | hear client waiting => simp [Stage.move, waiting]
  | call performed => simp [Stage.move, performed]
  | panic performed => simp [Stage.move, performed]
  | takeIn queued takesIn => simp [Stage.move, queued, takesIn]
  | report first => simp [Stage.move, first]
  | fail asked answered =>
    obtain ⟨_ | _, client⟩ := answered <;> rfl
  | _ => rfl

/-- A step accepts a connection or is a move of one. -/
theorem Pool.step_cases [Platform] {server : Server} {pool next : Pool} {choice : Choice}
    (stepped : pool.step server choice = some next) :
    (choice = .accept ∧ next = pool.accept) ∨
      ∃ id move stage moved world what, choice = .turn id move ∧
        pool.stages[id]? = some stage ∧
        Stage.Moves server id pool.world stage move moved world what ∧
        next = ⟨world, pool.stages.set id moved, pool.history ++ [⟨id, pool.world, what⟩]⟩ := by
  cases choice with
  | accept =>
    cases stepped
    exact .inl ⟨rfl, rfl⟩
  | turn id move =>
    obtain ⟨stage, isStage, rest⟩ := Option.bind_eq_some_iff.mp stepped
    obtain ⟨⟨moved, world, what⟩, isMove, isNext⟩ := Option.map_eq_some_iff.mp rest
    cases isNext
    exact .inr ⟨id, move, stage, moved, world, what, rfl, isStage,
      Stage.moves_of_move isMove, rfl⟩

theorem Pool.history_of_step [Platform] {server : Server} {pool next : Pool} {choice : Choice}
    (stepped : pool.step server choice = some next) :
    ∃ moment, next.history = pool.history ++ [moment] := by
  obtain ⟨rfl, rfl⟩ | ⟨id, move, stage, moved, world, what, rfl, isStage, moves, rfl⟩ :=
    Pool.step_cases stepped
  · exact ⟨_, rfl⟩
  · exact ⟨_, rfl⟩

theorem Pool.step_turn [Platform] {server : Server} {pool : Pool} {id : Nat} {move : Move}
    {stage moved : Stage} {world : World} {what : Happening}
    (isStage : pool.stages[id]? = some stage)
    (moves : Stage.Moves server id pool.world stage move moved world what) :
    pool.step server (.turn id move) =
      some ⟨world, pool.stages.set id moved, pool.history ++ [⟨id, pool.world, what⟩]⟩ := by
  simp [Pool.step, isStage, moves.move_eq]

theorem lookup_set {α : Type} {items : List α} {index : Nat} {old : α}
    (isOld : items[index]? = some old) (new : α) (other : Nat) :
    (items.set index new)[other]? = if other = index then some new else items[other]? := by
  by_cases same : other = index
  · obtain ⟨within, -⟩ := List.getElem?_eq_some_iff.mp isOld
    rw [same, if_pos rfl, List.getElem?_set_self within]
  · rw [if_neg same, List.getElem?_set_ne fun equal => same equal.symm]

namespace Pool

/-- The client on a connection just made. -/
def newcomer (pool : Pool) : Client :=
  { subscriptions := { listener := some pool.stages.length }
    authenticated := pool.world.passwords.isEmpty }

theorem accept_lookup (pool : Pool) (id : Nat) :
    pool.accept.stages[id]? =
      if id = pool.stages.length then some (.idle pool.newcomer) else pool.stages[id]? := by
  split
  · rename_i isNew
    rw [isNew]
    exact List.getElem?_concat_length
  · rename_i notNew
    rw [accept, List.getElem?_append]
    split
    · rfl
    · rw [List.getElem?_eq_none (by simp; omega), List.getElem?_eq_none (by omega)]

/-- What is known of every connection is known after a step, if it holds of a newcomer, of
the one whose turn it was, and of those whose turn it was not. -/
theorem each_step [Platform] {server : Server} {pool next : Pool} {choice : Choice}
    {before after : Nat → Stage → Prop} (stepped : pool.step server choice = some next)
    (each : ∀ id stage, pool.stages[id]? = some stage → before id stage)
    (newcomer : next = pool.accept → after pool.stages.length (.idle pool.newcomer))
    (elsewhere : ∀ moment, next.history = pool.history ++ [moment] → ∀ id stage,
      moment.id ≠ id → before id stage → after id stage)
    (here : ∀ id move stage moved world what,
      Stage.Moves server id pool.world stage move moved world what →
      pool.stages[id]? = some stage →
      next = ⟨world, pool.stages.set id moved, pool.history ++ [⟨id, pool.world, what⟩]⟩ →
      before id stage → after id moved)
    (id : Nat) (stage : Stage) (isStage : next.stages[id]? = some stage) : after id stage := by
  obtain ⟨rfl, isNext⟩ | ⟨turn, move, old, moved, world, what, rfl, isOld, moves, isNext⟩ :=
    step_cases stepped
  · rw [isNext, accept_lookup] at isStage
    split at isStage
    · rename_i isNew
      cases isStage
      rw [isNew]
      exact newcomer isNext
    · rename_i notNew
      refine elsewhere ⟨_, _, _⟩ (by rw [isNext]; rfl) id stage ?_ (each id stage isStage)
      exact fun same => notNew same.symm
  · have isStage' := isStage
    rw [isNext] at isStage'
    simp only [lookup_set isOld] at isStage'
    split at isStage'
    · rename_i same
      subst same
      cases isStage'
      exact here id move old stage world what moves isOld isNext (each id old isOld)
    · rename_i other
      refine elsewhere ⟨_, _, _⟩ (by rw [isNext]) id stage ?_ (each id stage isStage')
      exact fun same => other same.symm

end Pool

/-! ## Runs written out -/

/-- What happened, split at one moment of it. -/
theorem eq_take_cons_drop {α : Type} {items : List α} {index : Nat} {item : α}
    (isItem : items[index]? = some item) :
    items = items.take index ++ item :: items.drop (index + 1) := by
  obtain ⟨within, rfl⟩ := List.getElem?_eq_some_iff.mp isItem
  rw [← List.drop_eq_getElem_cons within, List.take_append_drop]

/-- A moment of what has happened is the last one, or comes before it. -/
theorem concat_eq_append_cons {α : Type} {items before rest : List α} {last item : α}
    (split : items ++ [last] = before ++ item :: rest) :
    (before = items ∧ item = last ∧ rest = []) ∨
      ∃ others, items = before ++ item :: others ∧ rest = others ++ [last] := by
  rcases List.eq_nil_or_concat' rest with rfl | ⟨others, other, rfl⟩
  · obtain ⟨rfl, isLast⟩ := List.append_inj' split rfl
    exact .inl ⟨rfl, (List.cons.inj isLast).1.symm, rfl⟩
  · rw [← List.cons_append, ← List.append_assoc] at split
    obtain ⟨isEarlier, isLast⟩ := List.append_inj' split rfl
    exact .inr ⟨others, isEarlier, by rw [isLast]⟩

/-- The moves of a connection that asks for something and is answered after so many calls. -/
def Choice.command (id : Nat) (words : List String) (count : Nat) : List Choice :=
  .turn id (.ask (typed words)) :: List.replicate count (.turn id (.call {})) ++
    [.turn id .answer]

/-- The moves of a connection that asks for something and gets so many calls into it. -/
def Choice.begun (id : Nat) (words : List String) (count : Nat) : List Choice :=
  .turn id (.ask (typed words)) :: List.replicate count (.turn id (.call {}))

end RedisServer
