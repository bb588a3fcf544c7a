import RedisServer.Concurrency.Parked
import RedisServer.Concurrency.Storing
import RedisServer.Store.Queues

/-!
# Clients that hang up while they wait

A client may close its connection at any time.  The task that serves it finds out when it
next reads, and a task in the middle of a blocking pop does not read: its end of the
queue stays open, and a push hands it an element there is nobody to write to.  As long
as no push reaches someone in the queue who has gone, every element goes to a client that
is still there or stays in the list.
-/

namespace RedisServer

/-! ## Connections whose client has gone -/

/-- The connections of a server, and those whose clients have closed them. -/
structure Line where
  pool : Pool
  closed : List Nat := []

/-- A step of the server, or a client that closes its connection. -/
inductive Incident where
  | served (choice : Choice)
  | closed (id : Nat)

/-- Nothing happens on the server when a connection is closed. -/
def Line.step [Platform] (server : Server) (line : Line) : Incident → Option Line
  | .served choice => (line.pool.step server choice).map fun pool => { line with pool }
  | .closed id =>
    if id < line.pool.stages.length then some { line with closed := line.closed ++ [id] }
    else none

/-- The element a connection waits for. -/
def Stage.awaits : Stage → Option Nat
  | .running _ (.call (.receive receiver _) _) => some receiver
  | _ => none

/-- What was pushed, and where. -/
def Happening.pushes : Happening → Option (Bytes × List Bytes × Side)
  | .called _ (.store call) reply => call.pushes reply
  | _ => none

/-- The elements a step hands to those who wait go to clients that are still connected,
and what a push brings is handed over or stays in the list. -/
def Line.HandsOver (line : Line) (next : Line) : Prop :=
  ∃ handed : List (Nat × Bytes),
    (∀ receiver, handedTo next.pool.world.store.oneshots receiver =
      (handed.lookup receiver).or (handedTo line.pool.world.store.oneshots receiver)) ∧
    (∀ receiver ∈ handed.map Prod.fst, ∃ id stage, line.pool.stages[id]? = some stage ∧
      stage.awaits = some receiver ∧ id ∉ line.closed) ∧
    ∀ moment key elements side, next.pool.history = line.pool.history ++ [moment] →
      moment.what.pushes = some (key, elements, side) →
      handed.map Prod.snd ++ next.pool.world.store.listAt key =
        pushOnto side elements (line.pool.world.store.listAt key)

/-- Nobody who has closed their connection waits on a key so far in front that a push to
it reaches them. -/
def Line.attended (line : Line) : Incident → Bool
  | .served (.turn id (.call _)) =>
    match line.pool.stages[id]? with
    | some (.running _ (.call (.store (.on key (.push elements side))) _)) =>
      let store := line.pool.world.store
      let count := (pushOnto side elements (store.listAt key)).length
      line.closed.all fun client => (line.pool.stages[client]?.bind Stage.awaits).all
        fun receiver => !(store.reached key count).contains receiver
    | _ => true
  | _ => true

/-! ## Everyone who waits is waited for -/

section

variable [Platform]

omit [Platform] in
/-- A command that has been told to wait for an element waits for it. -/
theorem awaits_of_parked {asked : Value} {program : Prog (Answer × Client)} {receiver : Nat}
    (keeps : program.Keeps parking (fun phase _ => phase = none) (some (.onList receiver))) :
    (Stage.running asked program).awaits = some receiver := by
  cases program with
  | ret answered => cases keeps
  | call request resume =>
    obtain ⟨⟨mayTimeOut, rfl⟩, -⟩ := keeps
    rfl

/-- What a turn may do to the queues. -/
inductive Queued (before after : State) (stage moved : Stage) : Happening → Prop where
  | asked {env : Env} {call : StoreCall} {reply : call.Reply}
      (queues : State.Queues before after call reply)
      (idle : stage.awaits = none)
      (parked : ∀ receiver, call.toldToWait reply = some receiver →
        moved.awaits = some receiver) :
      Queued before after stage moved (.called env (.store call) reply)
  | aside {what : Happening} (waiters : after.waiters = before.waiters)
      (handles : after.handles = before.handles)
      (entries : after.entries = before.entries)
      (notAsked : what.onStore = false)
      (handed : ∀ receiver, handedTo after.oneshots receiver = handedTo before.oneshots receiver)
      (known : ∀ receiver : Nat, after.oneshots[receiver]?.isSome = true →
        before.oneshots[receiver]?.isSome = true)
      (waited : ∀ receiver, after.oneshots[receiver]? = some .waiting →
        before.oneshots[receiver]? = some .waiting ∧ stage.awaits ≠ some receiver) :
      Queued before after stage moved what

omit [Platform] in
/-- What is asked of anything but the store hands nobody an element. -/
theorem perform_unhanded {env : Env} {world after : World} {call : Call} {reply : call.Reply}
    (notStore : ∀ asked, call ≠ .store asked)
    (performed : world.perform env call = .done after reply) :
    after.store.waiters = world.store.waiters ∧ after.store.handles = world.store.handles ∧
      ∀ receiver, handedTo after.store.oneshots receiver = handedTo world.store.oneshots receiver ∧
        (after.store.oneshots[receiver]?.isSome = true →
          world.store.oneshots[receiver]?.isSome = true) ∧
        (after.store.oneshots[receiver]? = some .waiting →
          world.store.oneshots[receiver]? = some .waiting ∧
            ∀ mayTimeOut, call ≠ .receive receiver mayTimeOut) := by
  have treated := perform_treated performed
  generalize after.store = store at treated ⊢
  cases treated with
  | asked performed => exact absurd rfl (notStore _)
  | @gaveUp receiver mayTimeOut isWaiting =>
    refine ⟨rfl, rfl, fun other => ?_⟩
    simp only [State.giveUp, handedTo, Map.lookup_insert]
    by_cases same : other = receiver
    · rw [if_pos same, same, isWaiting]
      exact ⟨rfl, fun _ => rfl, by rintro ⟨⟩⟩
    · rw [if_neg same]
      refine ⟨rfl, id, fun waiting => ⟨waiting, ?_⟩⟩
      rintro _ ⟨⟩
      exact same rfl
  | received unawaited =>
    refine ⟨rfl, rfl, fun other => ⟨rfl, id, fun waiting => ⟨waiting, ?_⟩⟩⟩
    rintro _ ⟨⟩
    exact unawaited waiting
  | released => exact ⟨rfl, rfl, fun other => ⟨rfl, id, fun waiting => ⟨waiting, by simp⟩⟩⟩
  | aside apart =>
    refine ⟨rfl, rfl, fun other => ⟨rfl, id, fun waiting => ⟨waiting, ?_⟩⟩⟩
    rintro _ rfl
    cases apart

theorem Stage.Moves.queued {server : Server} {id : Nat} {world after : World}
    {stage moved : Stage} {move : Move} {what : Happening} {parked : Option Parked}
    (parks : stage.Parks parked) (proper : world.store.Proper)
    (called : ∀ env call reply, what = .called env (.store call) reply → call.Proper)
    (moves : Stage.Moves server id world stage move moved after what) :
    Queued world.store after.store stage moved what := by
  cases moves with
  | @call asked request resume env after reply performed =>
    by_cases onStore : ∃ call, request = .store call
    · obtain ⟨call, rfl⟩ := onStore
      cases perform_stored performed with
      | asked held =>
        refine .asked (State.perform_queues proper (called _ _ _ rfl) held) rfl ?_
        intro receiver told
        have keeps := parks.2 reply
        unfold StoreCall.toldToWait at told
        split at told
        · cases told
          exact awaits_of_parked keeps
        · cases told
      | aside notAsked => cases notAsked
    · have notStore : ∀ call, request ≠ .store call := fun call isStore => onStore ⟨call, isStore⟩
      obtain ⟨waiters, handles, each⟩ := perform_unhanded notStore performed
      refine .aside waiters handles (perform_entries notStore performed).1 ?_
        (fun receiver => (each receiver).1) (fun receiver => (each receiver).2.1)
        fun receiver waiting => ?_
      · unfold Happening.onStore
        split
        · rename_i same
          cases same
          exact absurd rfl (notStore _)
        · rfl
      · obtain ⟨waited, notHere⟩ := (each receiver).2.2 waiting
        refine ⟨waited, fun isHere => ?_⟩
        unfold Stage.awaits at isHere
        split at isHere
        · rename_i same
          cases same
          cases isHere
          exact notHere _ rfl
        · cases isHere
  | panic performed =>
    rw [perform_panicked performed]
    refine .aside rfl rfl rfl rfl (fun _ => rfl) (fun _ known => known)
      fun receiver waiting => ⟨waiting, fun isHere => ?_⟩
    unfold Stage.awaits at isHere
    split at isHere
    · rename_i same
      cases same
      simp only [World.perform] at performed
      repeat' split at performed
      all_goals cases performed
    · cases isHere
  | _ =>
    exact .aside rfl rfl rfl rfl (fun _ => rfl) (fun _ known => known)
      fun _ waiting => ⟨waiting, by rintro ⟨⟩⟩

/-- The store is as it should be, nobody is in a queue twice, and whoever waits for an
element in the store is a connection that waits for it. -/
structure Pool.Awaited (pool : Pool) : Prop where
  proper : pool.Proper
  lined : pool.world.store.Lined
  parks : pool.Parks
  waited : ∀ receiver : Nat, pool.world.store.oneshots[receiver]? = some .waiting →
    ∃ (id : Nat) (stage : Stage), pool.stages[id]? = some stage ∧ stage.awaits = some receiver

omit [Platform] in
theorem Pool.awaited_start {store : State} (proper : store.Proper) (nobody : store.waiters = ∅)
    (nothing : store.oneshots = ∅) (log : Bytes) : (Pool.start store log).Awaited where
  proper := Pool.proper_start proper log
  lined := by constructor <;> simp [Pool.start, State.queueAt, nobody, nothing]
  parks := Pool.parks_start store log
  waited receiver waiting := by simp [Pool.start, nothing] at waiting

omit [Platform] in
theorem Queued.lined {before after : State} {stage moved : Stage} {what : Happening}
    (queued : Queued before after stage moved what) (lined : before.Lined) : after.Lined := by
  cases queued with
  | asked queues idle parked => exact queues.lined lined
  | aside waiters handles entries notAsked handed known waited =>
    constructor
    · simpa only [State.queueAt, waiters] using lined.nodup
    · simpa only [State.queueAt, waiters, handles] using lined.made
    · intro receiver oneshot found
      obtain ⟨before, isBefore⟩ := Option.isSome_iff_exists.mp
        (known receiver (by rw [found]; rfl))
      rw [handles]
      exact lined.known receiver before isBefore

omit [Platform] in
/-- Whoever waits after a turn has waited before it, somewhere else than on the connection
whose turn it was, or is that connection. -/
theorem Queued.waited {before after : State} {stage moved : Stage} {what : Happening}
    (queued : Queued before after stage moved what) {receiver : Nat}
    (waiting : after.oneshots[receiver]? = some .waiting) :
    (before.oneshots[receiver]? = some .waiting ∧ stage.awaits ≠ some receiver) ∨
      moved.awaits = some receiver := by
  cases queued with
  | asked queues idle parked =>
    rcases queues.waited waiting with waited | told
    · exact .inl ⟨waited, by simp [idle]⟩
    · exact .inr (parked receiver told)
  | aside waiters handles entries notAsked handed known waited =>
    exact .inl (waited receiver waiting)

theorem Pool.Awaited.step {server : Server} {pool next : Pool} {choice : Choice}
    (awaited : pool.Awaited) (stepped : pool.step server choice = some next) :
    next.Awaited := by
  have proper := awaited.proper.step stepped
  have parks := awaited.parks.step stepped
  obtain ⟨rfl, rfl⟩ | ⟨turn, move, stage, moved, world, what, rfl, isStage, moves, rfl⟩ :=
    Pool.step_cases stepped
  · refine ⟨proper, awaited.lined, parks, fun receiver waiting => ?_⟩
    obtain ⟨id, stage, isStage, awaits⟩ := awaited.waited receiver waiting
    refine ⟨id, stage, ?_, awaits⟩
    rw [Pool.accept_lookup, if_neg, isStage]
    exact Nat.ne_of_lt (List.getElem?_eq_some_iff.mp isStage).1
  · have queued := moves.queued (awaited.parks.stages turn stage isStage) awaited.proper.store
      (awaited.proper.called isStage moves)
    refine ⟨proper, queued.lined awaited.lined, parks, fun receiver waiting => ?_⟩
    rcases queued.waited waiting with ⟨waited, notHere⟩ | isHere
    · obtain ⟨id, now, isNow, awaits⟩ := awaited.waited receiver waited
      refine ⟨id, now, ?_, awaits⟩
      rw [lookup_set isStage, if_neg, isNow]
      rintro rfl
      cases isStage.symm.trans isNow
      exact notHere awaits
    · exact ⟨turn, moved, by rw [lookup_set isStage, if_pos rfl], isHere⟩

/-! ## Where the elements go -/

omit [Platform] in
/-- Where nobody is handed anything and nothing is pushed, nothing goes astray. -/
theorem Line.HandsOver.of_aside {line next : Line}
    (same : ∀ receiver, handedTo next.pool.world.store.oneshots receiver =
      handedTo line.pool.world.store.oneshots receiver)
    (unpushed : ∀ moment, next.pool.history = line.pool.history ++ [moment] →
      moment.what.pushes = none) : line.HandsOver next := by
  refine ⟨[], by simpa using same, by simp, fun moment key elements side isLast isPush => ?_⟩
  cases (unpushed moment isLast).symm.trans isPush

theorem Line.HandsOver.of_step {server : Server} {line next : Line} {incident : Incident}
    (awaited : line.pool.Awaited) (unclosed : line.attended incident = true)
    (stepped : line.step server incident = some next) : line.HandsOver next := by
  cases incident with
  | closed id =>
    simp only [Line.step] at stepped
    split at stepped <;> cases stepped
    exact .of_aside (fun _ => rfl) (by simp)
  | served choice =>
    obtain ⟨pool, isNext, rfl⟩ := Option.map_eq_some_iff.mp stepped
    obtain ⟨rfl, rfl⟩ | ⟨turn, move, stage, moved, world, what, rfl, isStage, moves, rfl⟩ :=
      Pool.step_cases isNext
    · refine .of_aside (fun _ => rfl) fun moment isLast => ?_
      cases List.append_cancel_left isLast
      rfl
    · have last (moment : Moment) (isLast : line.pool.history ++ [⟨turn, line.pool.world, what⟩] =
          line.pool.history ++ [moment]) : moment.what = what := by
        cases List.append_cancel_left isLast
        rfl
      cases moves.queued (awaited.parks.stages turn stage isStage) awaited.proper.store
        (awaited.proper.called isStage moves) with
      | aside waiters handles entries notAsked handed known waited =>
        refine .of_aside handed fun moment isLast => ?_
        rw [last moment isLast]
        unfold Happening.pushes
        split
        · cases notAsked
        · rfl
      | asked queues idle parked =>
        cases queues with
        | aside unpushed waiters oneshots handles =>
          refine .of_aside (fun _ => by rw [oneshots]) fun moment isLast => ?_
          rw [last moment isLast]
          exact unpushed
        | joined key waiters oneshots handles =>
          refine .of_aside (fun receiver => ?_) fun moment isLast => ?_
          · simp only [handedTo, oneshots, Map.lookup_insert]
            by_cases isNew : receiver = line.pool.world.store.handles
            · rw [if_pos isNew, isNew]
              cases found : line.pool.world.store.oneshots[line.pool.world.store.handles]? with
              | none => rfl
              | some oneshot => exact absurd (awaited.lined.known _ _ found) (lt_irrefl _)
            · rw [if_neg isNew]
          · rw [last moment isLast]
            rfl
        | served key elements side version length served =>
          obtain ⟨handed, lookups, waited, kept⟩ := served.handsOut (awaited.lined.nodup key)
          refine ⟨handed, lookups, fun receiver member => ?_, ?_⟩
          · rw [waited] at member
            have waiting := (List.mem_filter.mp (List.mem_of_mem_take member)).2
            obtain ⟨id, now, isNow, awaits⟩ := awaited.waited receiver (by
              simpa [waits] using waiting)
            refine ⟨id, now, isNow, awaits, fun isClosed => ?_⟩
            cases moves with
            | call performed =>
              simp only [Line.attended, isStage, List.all_eq_true] at unclosed
              have absent := unclosed id isClosed
              simp [isNow, awaits, member] at absent
          · intro moment key elements side isLast isPush
            rw [last moment isLast] at isPush
            cases isPush
            exact kept

theorem Line.awaited_step {server : Server} {line next : Line} {incident : Incident}
    (awaited : line.pool.Awaited) (stepped : line.step server incident = some next) :
    next.pool.Awaited := by
  cases incident with
  | closed id =>
    simp only [Line.step] at stepped
    split at stepped <;> cases stepped
    exact awaited
  | served choice =>
    obtain ⟨pool, isNext, rfl⟩ := Option.map_eq_some_iff.mp stepped
    exact awaited.step isNext

/-- Whatever is pushed, whoever waits and whoever hangs up: as long as no push reaches
someone in the queue who has gone, nothing is handed to those who have gone. -/
theorem elements_go_to_connected (server : Server) (store : State) (log : Bytes)
    (proper : store.Proper) (nobody : store.waiters = ∅) (nothing : store.oneshots = ∅)
    (incidents : List Incident)
    (meets : Run.Meets (Line.step server) (fun line incident => line.attended incident = true)
      { pool := .start store log } incidents) :
    Run.Every (Line.step server) (fun line _ next => line.HandsOver next)
      { pool := .start store log } incidents :=
  Run.every (fun line => line.pool.Awaited)
    (fun _ _ _ awaited stepped => Line.awaited_step awaited stepped)
    (fun _ _ _ awaited unclosed stepped => .of_step awaited unclosed stepped)
    (Pool.awaited_start proper nobody nothing log) meets

end

/-- The steps of the server among what happens to its connections. -/
def Incident.all (choices : List Choice) : List Incident := choices.map .served

/-- Three clients wait, one of them on another key, and all but the first on `k` close
their connections; then a fourth pushes. -/
def poppedInTime : List Incident :=
  Incident.all (List.replicate 4 .accept ++ Choice.begun 0 ["BLPOP", "other", "0"] 1 ++
      Choice.begun 1 ["BLPOP", "k", "0"] 1 ++ Choice.begun 2 ["BLPOP", "k", "0"] 1) ++
    [.closed 0, .closed 2] ++ Incident.all (Choice.command 3 ["RPUSH", "k", "v"] 4)

theorem elements_go_to_waiting :
    (∃ line, Run.after (@Line.step .ascii {}) { pool := .start {} [] } poppedInTime = some line ∧
      line.closed = [0, 2] ∧ line.pool.stages[1]?.bind Stage.awaits = some 1 ∧
      handedTo line.pool.world.store.oneshots 1 = some (utf8 "v")) ∧
    Run.Every (@Line.step .ascii {}) (fun line _ next => line.HandsOver next)
      { pool := .start {} [] } poppedInTime :=
  ⟨by decide +kernel,
    @elements_go_to_connected .ascii {} {} [] State.proper_empty rfl rfl poppedInTime
      (by decide +kernel)⟩

/-- One client waits and closes its connection, and another is about to push. -/
def closedWaiting : List Incident :=
  Incident.all ([.accept, .accept] ++ Choice.begun 0 ["BLPOP", "k", "0"] 1) ++ [.closed 0] ++
    Incident.all (Choice.begun 1 ["RPUSH", "k", "v"] 0)

/-- The push hands its element to the client that has gone, and leaves nothing. -/
theorem element_handed_to_closed :
    ∃ line next, Run.after (@Line.step .ascii {}) { pool := .start {} [] } closedWaiting =
        some line ∧
      @Line.step .ascii {} line (.served (.turn 1 (.call {}))) = some next ∧
      line.closed = [0] ∧ line.pool.stages[0]?.bind Stage.awaits = some 0 ∧
      handedTo line.pool.world.store.oneshots 0 = none ∧
      handedTo next.pool.world.store.oneshots 0 = some (utf8 "v") ∧
      next.pool.world.store.listAt (utf8 "k") = [] ∧ ¬line.HandsOver next := by
  obtain ⟨line, ran, seen⟩ := (Option.any_eq_true
    (fun line : Line => (@Line.step .ascii {} line (.served (.turn 1 (.call {})))).any fun next =>
      line.closed == [0] && line.pool.stages.length == 2 &&
      line.pool.stages[0]?.bind Stage.awaits == some 0 &&
      line.pool.stages[1]?.bind Stage.awaits == none &&
      handedTo line.pool.world.store.oneshots 0 == none &&
      handedTo next.pool.world.store.oneshots 0 == some (utf8 "v") &&
      next.pool.world.store.listAt (utf8 "k") == [])
    (Run.after (@Line.step .ascii {}) { pool := .start {} [] } closedWaiting)).mp
      (by decide +kernel)
  obtain ⟨next, stepped, seen⟩ := (Option.any_eq_true _ _).mp seen
  simp only [Bool.and_eq_true, beq_iff_eq] at seen
  obtain ⟨⟨⟨⟨⟨⟨isClosed, two⟩, first⟩, second⟩, before⟩, after⟩, left⟩ := seen
  refine ⟨line, next, ran, stepped, isClosed, first, before, after, left, ?_⟩
  rintro ⟨handed, lookups, connected, -⟩
  have isHanded : handed.lookup 0 = some (utf8 "v") := by
    have found := lookups 0
    rw [after, before, Option.or_none] at found
    exact found.symm
  obtain ⟨earlier, later, isSplit, -⟩ := List.lookup_eq_some_iff.mp isHanded
  obtain ⟨id, stage, isStage, awaits, connectedStill⟩ := connected 0 (by simp [isSplit])
  have within : id < 2 := two ▸ (List.getElem?_eq_some_iff.mp isStage).1
  interval_cases id
  · simp [isClosed] at connectedStill
  · simp [isStage, awaits] at second

end RedisServer
