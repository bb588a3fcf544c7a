import RedisServer.Commands.Execution
import RedisServer.Commands.Watching

/-!
# A transaction and its commands sent one by one

A command that is queued is run later, one layer below the gates a command passes as
it comes in.  For a connection all gates are open to, and commands that leave them
open, the two ways come to the same: the program `EXEC` runs is the check of an empty
watch followed by the program the commands are when they are sent directly.
-/

namespace RedisServer

variable {client : Client} {command : Command} {values : List Value} {commands : List Command}

namespace Client

/-- A client that is let in, listens on no channel, and neither watches nor queues
anything. -/
structure Ready (client : Client) : Prop where
  authenticated : client.authenticated = true
  silent : client.subscriptions.listening = false
  fresh : client.transaction = {}

end Client

/-- The value an answer sends back. -/
def Answer.value : Answer → Value
  | .reply value => value
  | .replica value => value

/-- A command that stays out of transactions and channels and makes no replica of its
connection. -/
def Command.Ordinary (command : Command) : Prop :=
  command.uppercased ∉
    ["MULTI", "EXEC", "DISCARD", "WATCH", "PSYNC", "SUBSCRIBE", "UNSUBSCRIBE"]

instance (command : Command) : Decidable command.Ordinary := inferInstanceAs (Decidable (¬ _))

theorem Command.Ordinary.unsteered (ordinary : command.Ordinary) :
    Transactions.steersATransaction command.uppercased = false := by
  simp only [Ordinary, List.mem_cons, not_or] at ordinary
  simp [Transactions.steersATransaction, ordinary]

/-- Checking nothing changes nothing. -/
theorem perform_unchanged_nil (env : Env) (world : World) :
    machine.perform env world (.store (.unchanged [])) = .done world true := rfl

section

variable [Platform]

/-- The commands of one client one after the other, with what each is answered. -/
def runEach (server : Server) (client : Client) : List Value → Prog (List Answer × Client)
  | [] => .ret ([], client)
  | value :: values =>
    (run server client value).bind fun (answer, client) =>
      (fun (answers, last) => (answer :: answers, last)) <$> runEach server client values

theorem runEach_append (server : Server) (client : Client) (values later : List Value) :
    runEach server client (values ++ later) =
      runEach server client values >>= fun (answers, middle) =>
        (fun (rest, last) => (answers ++ rest, last)) <$> runEach server middle later := by
  induction values generalizing client with
  | nil => exact (Program.bind_ret _).symm
  | cons value values ih =>
    simp only [runEach, List.cons_append, ih, Program.bind_eq, Program.map_eq_bind,
      Program.bind_bind, Program.ret_bind]

/-! ## Commands sent directly -/

/-- Nothing that is run takes back that a client was let in. -/
theorem Acl.run_admitted {name : String} {args : List Bytes} {program : Prog (Value × Bool)}
    (found : Acl.run name args true = some program) :
    program.Returns fun replied => replied.2 = true := by
  have authenticates (user password : Bytes) :
      (Acl.authenticate user password true).Returns fun replied => replied.2 = true := by
    unfold Acl.authenticate
    split
    · rfl
    · intro accepted
      simp only [Program.returns_ret]
      split <;> rfl
  unfold Acl.run at found
  split at found
  · cases found
    exact .map (.of_forall (fun _ => rfl) _)
  · cases found
    split
    · intro wantsNone
      dsimp only
      split
      · rfl
      · exact authenticates _ _
    · exact authenticates _ _
    · rfl
  · cases found

theorem runAgainst_admitted (server : Server) (authenticated : client.authenticated = true)
    (command : Command) :
    (runAgainst server client command).Returns fun replied => replied.2.authenticated = true := by
  unfold runAgainst
  dsimp only
  split
  · exact authenticated
  split
  · exact .map (.of_forall (fun _ => authenticated) _)
  split
  · exact .map (.of_forall (fun _ => authenticated) _)
  split
  · rename_i found
    rw [authenticated] at found
    exact .map (Acl.run_admitted found)
  split
  · exact .map (.of_forall (fun _ => authenticated) _)
  · exact authenticated

theorem dispatch_admitted (server : Server) (authenticated : client.authenticated = true)
    (command : Command) :
    (dispatch server client command).Returns fun replied => replied.2.authenticated = true := by
  refine (runAgainst_admitted server authenticated command).bind fun replied admitted => ?_
  refine (afterwards_returns server command replied).mono fun result came => ?_
  rcases came with rfl | ⟨rfl, -⟩
  · exact admitted
  · exact admitted

/-- An ordinary command leaves its client ready for the next. -/
theorem dispatch_ready (server : Server) (ready : client.Ready) (ordinary : command.Ordinary) :
    (dispatch server client command).Returns fun replied => replied.2.Ready := by
  have ⟨notOn, notOff⟩ : command.uppercased ≠ "SUBSCRIBE" ∧ command.uppercased ≠ "UNSUBSCRIBE" := by
    simp only [Command.Ordinary, List.mem_cons, not_or] at ordinary
    simp [ordinary]
  have fresh : (dispatch server client command).Returns fun replied =>
      replied.2.transaction = {} := by
    by_cases isUnwatch : command.uppercased = "UNWATCH"
    · rw [dispatch_unwatch isUnwatch, Program.returns_ret, ready.fresh]
      split
      · rfl
      · exact ready.fresh
    · exact (dispatch_watched isUnwatch server client).mono fun _ kept => kept.trans ready.fresh
  have gates := (dispatch_admitted server ready.authenticated command).and
    ((dispatch_keeps server client notOn notOff).and fresh)
  refine gates.mono fun replied ⟨authenticated, kept, fresh⟩ => ⟨authenticated, ?_, fresh⟩
  rw [kept]
  exact ready.silent

/-- Every gate is open to an ordinary command of a client that is ready. -/
theorem run_ready (server : Server) (ready : client.Ready) {value : Value}
    (parsed : Command.parse value = .ok command) (ordinary : command.Ordinary) :
    run server client value =
      (fun replied => (.reply replied.1, replied.2)) <$> dispatch server client command := by
  have unsteered : Transactions.steer command client.transaction = none := by
    rw [← Option.not_isSome_iff_eq_none, Transactions.steer_isSome, ordinary.unsteered]
    simp
  have notPsync : command.uppercased ≠ "PSYNC" := by
    simp only [Command.Ordinary, List.mem_cons, not_or] at ordinary
    simp [ordinary]
  simp only [run, parsed, runCommand, ready.authenticated, ready.silent, Bool.not_true,
    Bool.false_and, Bool.false_eq_true, if_false, ordinary.unsteered]
  split
  · rename_i queued isQueue
    rw [ready.fresh] at isQueue
    cases isQueue
  · unfold carryOut
    rw [unsteered]
    congr 1
    funext replied
    simp [answer, notPsync]

/-- A queue that is executed is its commands sent directly, with the answers gathered. -/
theorem execute_eq_runEach (server : Server) (ready : client.Ready) (replies : List Value)
    (parsed : values.map Command.parse = commands.map .ok)
    (ordinary : ∀ command ∈ commands, command.Ordinary) :
    execute server client replies commands =
      (fun (answers, last) => (.array (replies ++ answers.map Answer.value), last)) <$>
        runEach server client values := by
  induction commands generalizing client replies values with
  | nil =>
    obtain rfl : values = [] := by simpa using parsed
    simp [execute, runEach]
  | cons command commands ih =>
    obtain ⟨value, values, rfl, isCommand, parsed⟩ := List.map_eq_cons_iff.mp parsed
    rw [List.forall_mem_cons] at ordinary
    simp only [runEach, execute, run_ready server ready isCommand ordinary.1]
    simp only [Program.bind_eq, Program.map_eq_bind, Program.bind_bind, Program.ret_bind]
    refine (dispatch_ready server ready ordinary.1).bind_congr fun replied ready => ?_
    rw [ih ready _ parsed ordinary.2]
    simp [Program.map_eq_bind, Answer.value]

/-! ## Commands queued -/

/-- What a client in a transaction is told of a command that is kept for later. -/
def queuedAnswer : Answer := .reply (.simpleString "QUEUED")

/-- A client with a queue. -/
def Client.queueing (client : Client) (queued : List Command) : Client :=
  { client with transaction := { queued := some queued } }

theorem runEach_queued (server : Server) (ready : client.Ready) (queued : List Command)
    (parsed : values.map Command.parse = commands.map .ok)
    (ordinary : ∀ command ∈ commands, command.Ordinary) :
    runEach server (client.queueing queued) values =
      .ret (commands.map fun _ => queuedAnswer, client.queueing (queued ++ commands)) := by
  induction commands generalizing queued values with
  | nil =>
    obtain rfl : values = [] := by simpa using parsed
    simp [runEach]
  | cons command commands ih =>
    obtain ⟨value, values, rfl, isCommand, parsed⟩ := List.map_eq_cons_iff.mp parsed
    rw [List.forall_mem_cons] at ordinary
    have isQueued : run server (client.queueing queued) value =
        .ret (queuedAnswer, client.queueing (queued ++ [command])) := by
      simp [run, isCommand, runCommand, Client.queueing, ready.authenticated, ready.silent,
        ordinary.1.unsteered, queuedAnswer]
    simp only [runEach, isQueued, Program.bind, ih (queued ++ [command]) parsed ordinary.2]
    simp

/-- The commands `MULTI`, `EXEC` and `DISCARD`, however they are spelled. -/
def Spells (name : String) (value : Value) : Prop :=
  ∃ spelling, Command.parse value = .ok ⟨name, spelling, []⟩

/-- No gate holds back a command that steers a transaction. -/
theorem run_steering (server : Server) (authenticated : client.authenticated = true)
    (silent : client.subscriptions.listening = false) {value : Value}
    (parsed : Command.parse value = .ok command)
    (steers : Transactions.steersATransaction command.uppercased = true) :
    run server client value = answer command <$> carryOut server client command := by
  simp only [run, parsed, runCommand, authenticated, silent, steers, Bool.not_true,
    Bool.false_and, Bool.false_eq_true, if_false]

theorem run_multi (server : Server) (ready : client.Ready) {opening : Value}
    (opens : Spells "MULTI" opening) :
    run server client opening = .ret (.reply ok, client.queueing []) := by
  obtain ⟨spelling, isMulti⟩ := opens
  rw [run_steering server ready.authenticated ready.silent isMulti rfl, carryOut, ready.fresh]
  rfl

theorem run_discard (server : Server) (ready : client.Ready) (queued : List Command)
    {dropping : Value} (drops : Spells "DISCARD" dropping) :
    run server (client.queueing queued) dropping = .ret (.reply ok, client) := by
  obtain ⟨spelling, isDiscard⟩ := drops
  have authenticated : (client.queueing queued).authenticated = true := ready.authenticated
  rw [run_steering server authenticated ready.silent isDiscard rfl]
  obtain ⟨transaction, subscriptions, authenticated⟩ := client
  obtain rfl := ready.fresh
  rfl

/-- What `EXEC` runs: the check of what is watched, and then the queue. -/
theorem run_exec (server : Server) (ready : client.Ready) (queued : List Command) {closing : Value}
    (closes : Spells "EXEC" closing) :
    run server (client.queueing queued) closing =
      .call (.store (.unchanged [])) fun unchanged =>
        if unchanged then (fun replied => (.reply replied.1, replied.2)) <$>
          execute server client [] queued
        else .ret (.reply .nullArray, client) := by
  obtain ⟨spelling, isExec⟩ := closes
  have authenticated : (client.queueing queued).authenticated = true := ready.authenticated
  rw [run_steering server authenticated ready.silent isExec rfl]
  obtain ⟨transaction, subscriptions, authenticated⟩ := client
  obtain rfl := ready.fresh
  refine congrArg (Program.call _) (funext fun unchanged => ?_)
  cases unchanged <;> rfl

/-- What a client is answered before the end of a transaction of these commands. -/
def openedAnswers (commands : List Command) : List Answer :=
  .reply ok :: commands.map fun _ => queuedAnswer

/-- What a transaction of these commands is answered, and the client it leaves, by what
comes of the commands when they are sent directly. -/
def asTransaction (commands : List Command) (direct : List Answer × Client) :
    List Answer × Client :=
  (openedAnswers commands ++ [.reply (.array (direct.1.map Answer.value))], direct.2)

/-- Up to its last command a transaction makes no call at all. -/
theorem runEach_opened (server : Server) (ready : client.Ready) {opening : Value}
    (opens : Spells "MULTI" opening) (parsed : values.map Command.parse = commands.map .ok)
    (ordinary : ∀ command ∈ commands, command.Ordinary) :
    runEach server client (opening :: values) =
      .ret (openedAnswers commands, client.queueing commands) := by
  simp only [runEach, run_multi server ready opens, Program.bind,
    runEach_queued server ready [] parsed ordinary]
  rfl

/-- A transaction does what its commands do sent one by one, and is answered with an array of
their answers; up to `EXEC`, and if it is discarded, nothing is done at all. -/
theorem transaction_eq_direct (server : Server) (client : Client) (ready : client.Ready)
    (opening closing dropping : Value) (opens : Spells "MULTI" opening)
    (closes : Spells "EXEC" closing) (drops : Spells "DISCARD" dropping) (values : List Value)
    (commands : List Command) (parsed : values.map Command.parse = commands.map .ok)
    (ordinary : ∀ command ∈ commands, command.Ordinary) (supply : Nat → Env) (count : Nat)
    (world : World) :
    (runEach server client (opening :: values ++ [closing])).exec machine supply count world =
        ((runEach server client values).exec machine supply (count + 1) world).map
          (asTransaction commands) ∧
      (runEach server client (opening :: values)).exec machine supply count world =
        .done (count, world) (openedAnswers commands, client.queueing commands) ∧
      (runEach server client (opening :: values ++ [dropping])).exec machine supply count world =
        .done (count, world) (openedAnswers commands ++ [.reply ok], client) := by
  have opened := runEach_opened server ready opens parsed ordinary
  refine ⟨?_, by rw [opened]; rfl, ?_⟩
  · have isExecuted := run_exec server ready commands closes
    rw [execute_eq_runEach server ready [] parsed ordinary] at isExecuted
    rw [runEach_append, opened, Program.ret_bind]
    simp only [runEach, isExecuted, Program.bind_eq, Program.call_bind, Program.map_call]
    rw [Program.exec_call_done (perform_unchanged_nil (supply count) world)]
    simp only [if_true, Program.map_eq_bind, Program.bind_bind, Program.ret_bind,
      ← Program.exec_map]
    rfl
  · rw [runEach_append, opened, Program.ret_bind]
    simp only [runEach, run_discard server ready commands drops, Program.bind]
    rfl

end

theorem transaction_eq_direct_written :
    (@runEach .ascii {} {}
          (typed ["multi"] :: [typed ["SET", "k", "v"], typed ["INCR", "k"]] ++
            [typed ["EXEC"]])).exec machine (fun _ => {}) 0 {} =
      ((@runEach .ascii {} {} [typed ["SET", "k", "v"], typed ["INCR", "k"]]).exec machine
          (fun _ => {}) 1 {}).map
        (asTransaction [⟨"SET", utf8 "SET", [utf8 "k", utf8 "v"]⟩,
          ⟨"INCR", utf8 "INCR", [utf8 "k"]⟩]) :=
  (@transaction_eq_direct .ascii {} {} ⟨rfl, rfl, rfl⟩ (typed ["multi"]) (typed ["EXEC"])
    (typed ["DISCARD"]) ⟨utf8 "multi", rfl⟩ ⟨utf8 "EXEC", rfl⟩ ⟨utf8 "DISCARD", rfl⟩
    [typed ["SET", "k", "v"], typed ["INCR", "k"]] _ rfl (by decide) (fun _ => {}) 0 {}).1

end RedisServer
