import RedisServer.Commands.Owing
import RedisServer.Lib.Protocol
import RedisServer.Recovery.Sequential

/-!
# What a command owes to be written down

A command that writes makes one call on the store, waits perhaps for an element, and then
records what it has done and passes it on.  From the call on it owes what it has done.
-/

namespace RedisServer

/-- How far a command is with writing down what it has done. -/
inductive Owing where
  | free
  /-- Waiting for an element from a key. -/
  | waiting (receiver : Nat) (key : Bytes)
  | recording (done : Done)
  | sending (done : Done)

/-- What a call and what it is replied leave a command with. -/
def Owing.next (server : Server) : Owing → (call : Call) → call.Reply → Owing
  | _, .store (.on key op), reply =>
    if op.refused reply then .free else .recording ⟨key, op, reply⟩
  | _, .store (.blpop key), .ok (.ready element) => .recording (.pop key element)
  | _, .store (.blpop key), .ok (.waiting receiver) => .waiting receiver key
  | .waiting _ key, .receive _ _, some element => .recording (.pop key element)
  | .recording done, .record _, true =>
    if server.config.replicaof.isNone then .sending done else .free
  | _, _, _ => .free

variable [Platform]

/-- Words that do again what was done, whatever the keys hold. -/
structure Done.NotedAs (done : Done) (words : List Bytes) : Prop where
  replayable : Replayable words
  carried : ∀ space, carryWords ⟨0, 0⟩ words space = Done.effects.apply space done

/-- A command asks for one thing, and writes it down before it asks for another. -/
def owing (server : Server) : Protocol calls Owing where
  allows
    | .free, .store call => call.Timeless
    | .free, .advance _ => True
    | .waiting receiver _, .receive other _ => other = receiver
    | .recording done, .record written => ∃ words, written = asCommand words ∧ done.NotedAs words
    | .sending done, .send written => ∃ words, written = asCommand words ∧ done.NotedAs words
    | _, _ => False
  next := Owing.next server

variable {server : Server} {client : Client} {command : Command}

/-- What a command ends with once it owes nothing. -/
def Owing.Ends (client : Client) {α : Type} (phase : Owing) (replied : α × Client) : Prop :=
  phase = .free ∧ replied.2 = client

theorem noteDown_owing (recording : server.recording) {done : Done} {words : List Bytes}
    (noted : done.NotedAs words) (reply : Value) :
    (noteDown server (asCommand words) (reply, client)).Keeps (owing server) (Owing.Ends client)
      (.recording done) := by
  simp only [noteDown, recording, if_true]
  refine ⟨⟨words, rfl, noted⟩, fun recorded => ?_⟩
  cases recorded with
  | false => exact ⟨rfl, rfl⟩
  | true =>
    simp only [owing, Owing.next, passOn, if_true]
    split
    · exact ⟨⟨words, rfl, noted⟩, fun bytes => ⟨True.intro, fun _ => ⟨rfl, rfl⟩⟩⟩
    · exact ⟨rfl, rfl⟩

/-- A recorded command writes down the method it asked for. -/
theorem Command.Admitted.notedAs (admitted : command.Admitted)
    (isRecorded : recordedAsSent command.uppercased) {done : Done}
    (target : command.target = some (done.key, done.op)) :
    done.NotedAs (command.name :: command.args) where
  replayable := admitted.replayable isRecorded
  carried space := by
    rw [admitted.carryWords, Command.carry, target, Done.apply_eq_carry]

theorem dispatch_recorded_owing (recording : server.recording) (admitted : command.Admitted)
    (isRecorded : recordedAsSent command.uppercased) :
    (dispatch server client command).Keeps (owing server) (Owing.Ends client) .free := by
  obtain ⟨program, writing, found, runs⟩ := runAgainst_recorded isRecorded
  have asked : command.target = askedOf program := by
    simp only [Command.target, found, Option.bind_some]
  have candid := Command.candid isRecorded found
  rw [dispatch, runs, Client.kept]
  cases writing with
  | @refused value isError =>
    change (afterwards server command (value, client)).Keeps _ _ _
    rw [afterwards, if_pos isError]
    exact ⟨rfl, rfl⟩
  | asked key op reply writes proper unwritten =>
    refine ⟨⟨writes, admitted.plain.timeless isRecorded asked⟩, fun answer => ?_⟩
    change (afterwards server command (reply answer, client)).Keeps _ _ _
    obtain ⟨value, isValue, exactly⟩ := candid answer
    cases isValue
    rw [afterwards, exactly]
    simp only [owing, Owing.next]
    cases op.refused answer with
    | true => exact ⟨rfl, rfl⟩
    | false =>
      simp only [writtenDown, isRecorded, if_true]
      exact noteDown_owing recording
        (@Command.Admitted.notedAs _ command admitted isRecorded ⟨key, op, answer⟩ asked) _

theorem notedAs_lpop {key : Bytes} (small : key.length ≤ maxBulkLength) (element : Bytes) :
    (Done.pop key element).NotedAs [utf8 "LPOP", key] where
  replayable := replayable_lpopOf small
  carried space := by
    rw [carryWords_lpop, Done.apply_eq_carry]
    rfl

/-- A blocking pop writes down the element it took. -/
theorem dispatch_blpop_owing (recording : server.recording) (admitted : command.Admitted)
    (isBlpop : command.uppercased = "BLPOP") :
    (dispatch server client command).Keeps (owing server) (Owing.Ends client) .free := by
  have notRecorded : recordedAsSent "BLPOP" = false := rfl
  have nothing (reply : Value) (unwritten : writtenDown command reply = none ∨ reply.isError) :
      (afterwards server command (reply, client)).Keeps (owing server) (Owing.Ends client)
        .free := by
    rw [afterwards_unwritten unwritten]
    exact ⟨rfl, rfl⟩
  rw [dispatch, runAgainst_blpop isBlpop]
  unfold blpopProgram
  split
  · rename_i key timeout args
    have small : key.length ≤ maxBulkLength := admitted.sendable.small key (by simp [args])
    have took (element : Bytes) : (afterwards server command
        (Lists.popped key (some element), client)).Keeps (owing server) (Owing.Ends client)
          (.recording (.pop key element)) := by
      simp only [afterwards, Lists.popped, Value.isError, writtenDown, isBlpop, args,
        Bool.false_eq_true, if_false, if_true]
      exact noteDown_owing recording (notedAs_lpop small element) _
    unfold Lists.blpop
    split
    · exact nothing _ (.inr (Lists.parseTimeout_isError ‹_›))
    · refine ⟨True.intro, fun answer => ?_⟩
      rcases answer with _ | element | receiver
      · exact nothing _ (.inr rfl)
      · exact took element
      · refine ⟨rfl, fun taken => ?_⟩
        cases taken with
        | none => exact nothing _ (.inl (by simp [writtenDown, isBlpop, notRecorded, Lists.popped]))
        | some element => exact took element
  · exact nothing _ (.inr rfl)

/-- A client can send this, and it names a command that writes and means the same at any
time, if it names one at all. -/
structure Value.Writes (found : Value) : Prop where
  received : Received found
  recorded : ∀ command, Command.parse found = .ok command →
    recordedAsSent command.uppercased ∧ command.Plain

/-- The same, or a blocking pop. -/
structure Value.WritesOrPops (found : Value) : Prop where
  received : Received found
  recorded : ∀ command, Command.parse found = .ok command →
    (recordedAsSent command.uppercased ∨ command.uppercased = "BLPOP") ∧ command.Plain

theorem Value.Writes.orPops {found : Value} (writes : found.Writes) : found.WritesOrPops :=
  ⟨writes.received, fun command spelled => (writes.recorded command spelled).imp_left .inl⟩

/-- A client that listens to nothing and is in no transaction, let in or not. -/
structure Client.Ordinary (client : Client) : Prop where
  silent : client.subscriptions.listening = false
  outside : client.transaction.queued = none

/-- A command that writes, or a blocking pop, has written down what it has done by the time
it is answered. -/
theorem run_owing (recording : server.recording) (ordinary : client.Ordinary) {found : Value}
    (writes : found.WritesOrPops) :
    (run server client found).Keeps (owing server)
      (fun phase answered => phase = .free ∧ ∃ reply, answered = (.reply reply, client)) .free := by
  unfold run
  split
  · exact ⟨rfl, _, rfl⟩
  · rename_i command spelled
    obtain ⟨named, plain⟩ := writes.recorded command spelled
    have admitted := admitted_of_received writes.received spelled plain
    unfold runCommand
    split
    · exact ⟨rfl, _, rfl⟩
    have dispatched : (answer command <$> dispatch server client command).Keeps (owing server)
        (fun phase answered => phase = .free ∧ ∃ reply, answered = (.reply reply, client))
        .free := by
      have notPsync : command.uppercased ≠ "PSYNC" := by
        intro isPsync
        rw [isPsync] at named
        exact absurd named (by decide)
      have keeps : (dispatch server client command).Keeps (owing server) (Owing.Ends client)
          .free := by
        rcases named with isRecorded | isBlpop
        · exact dispatch_recorded_owing recording admitted isRecorded
        · exact dispatch_blpop_owing recording admitted isBlpop
      refine Program.Keeps.map (keeps.mono fun phase replied ends => ⟨ends.1, replied.1, ?_⟩)
      simp [answer, notPsync, ends.2]
    have unsteered : Transactions.steersATransaction command.uppercased = false ∧
        Transactions.steer command client.transaction = none := by
      rcases named with isRecorded | isBlpop
      · exact unsteered_of_recorded isRecorded client.transaction
      · obtain ⟨uppercased, name, args⟩ := command
        cases isBlpop
        exact ⟨rfl, rfl⟩
    simpa only [ordinary.silent, Bool.false_and, Bool.false_eq_true, if_false, ordinary.outside,
      unsteered, carryOut] using dispatched

end RedisServer
