import RedisServer.Lib.Run
import RedisServer.Recovery.Replay
import RedisServer.Server.Service

/-!
# What a server doing one thing at a time comes back up with

As long as every append goes through, no `SET` gives its key a time to live and no
`XADD` leaves its id to the server, the log of a sequential run is at every moment
between two commands a list of commands that come to what the store holds.
-/

namespace RedisServer

variable [Platform]

/-- A command as it may come in: a client can send it, and it means the same at any
time. -/
structure Command.Admitted (command : Command) : Prop where
  sendable : Sendable (command.name :: command.args)
  spelled : Command.parse command.asSent = .ok command
  plain : command.Plain

/-- The log is a list of commands that come to what the store holds. -/
structure Recorded (records : List (List Bytes)) (world : World) : Prop where
  settled : world.store.Settled
  log : world.log = encodeAll (records.map asCommand)
  replayable : ∀ words ∈ records, Replayable words
  contents : world.store.contents = rebuilt records

/-- The log comes to what the store holds. -/
def Faithful (world : World) : Prop := ∃ records, Recorded records world

/-- Every append goes through, and a command that panics leaves the log faithful.
One that waits for ever is the end of the run. -/
def faithfully : Terms Env World := ⟨fun env => env.append = none, True, Faithful⟩

variable {server : Server} {command : Command} {client : Client} {world after : World}
  {records : List (List Bytes)}

theorem Recorded.congr (recorded : Recorded records world)
    (sameStore : after.store = world.store) (sameLog : after.log = world.log) :
    Recorded records after :=
  ⟨sameStore ▸ recorded.settled, sameLog ▸ recorded.log, recorded.replayable,
    sameStore ▸ recorded.contents⟩

theorem rebuilt_append (records : List (List Bytes)) (words : List Bytes) :
    rebuilt (records ++ [words]) = carryWords ⟨0, 0⟩ words (rebuilt records) := by
  simp [rebuilt]

omit [Platform] in
/-- A call that is harmless leaves the store holding what it held. -/
theorem State.Settled.call {env : Env} {call : Call} {reply : call.Reply}
    (settled : world.store.Settled) (harmless : call.Harmless)
    (performed : world.perform env call = .done after reply) :
    after.store.Settled ∧ after.store.contents = world.store.contents := by
  have treated := perform_treated performed
  generalize after.store = store at treated ⊢
  cases treated with
  | asked performed => exact settled.harmless harmless performed
  | gaveUp isWaiting | received unawaited => exact harmless.elim
  | released =>
    exact ⟨⟨⟨settled.proper.cells, settled.proper.stamps⟩, settled.undated, settled.quiet⟩, rfl⟩
  | aside apart => exact ⟨settled, rfl⟩

/-- A call that is harmless leaves the log faithful. -/
theorem Recorded.harmless (recorded : Recorded records world) {call : Call}
    (harmless : call.Harmless) (env : Env) :
    (world.perform env call).Meets faithfully fun after _ => Recorded records after := by
  refine .of_forall True.intro (fun last panicked => ?_) fun after reply performed => ?_
  · exact ⟨records, perform_panicked panicked ▸ recorded⟩
  · obtain ⟨settled, same⟩ := recorded.settled.call harmless performed
    have log := (perform_framed performed).log harmless.onLog
    exact ⟨settled, log.trans recorded.log, recorded.replayable, same.trans recorded.contents⟩

theorem harmless_ensures {α : Type} {program : Prog α} {post : α → Prop}
    (makes : program.Makes Call.Harmless) (returns : program.Returns post)
    (recorded : Recorded records world) :
    program.Ensures machine faithfully
      (fun after value => Recorded records after ∧ post value) world :=
  .of_makes (fun env _ _ _ harmless recorded => Recorded.harmless recorded harmless env)
    makes returns recorded

/-- A command that was carried out is recorded. -/
theorem noteDown_faithful (recording : server.recording) {words : List Bytes}
    (settled : world.store.Settled) (log : world.log = encodeAll (records.map asCommand))
    (replayable : ∀ words ∈ records, Replayable words) (latest : Replayable words)
    (contents : world.store.contents = carryWords ⟨0, 0⟩ words (rebuilt records))
    (replied : Value × Client) :
    (noteDown server (asCommand words) replied).Ensures machine faithfully
      (fun after result => result = replied ∧ Faithful after) world := by
  simp only [noteDown, recording, if_true]
  intro env succeeds
  have appended : env.append = none := succeeds
  simp only [machine, World.perform, appended]
  refine (passOn_ensures _ _).mono fun after result passed => ⟨passed.1, ?_⟩
  suffices grown : Recorded (records ++ [words])
      { world with log := world.log ++ (asCommand words).encode } from
    ⟨_, grown.congr passed.2.1 passed.2.2⟩
  refine ⟨settled, ?_, ?_, ?_⟩
  · simp [log, encodeAll_eq_flatMap]
  · intro other member
    rcases List.mem_append.mp member with old | new
    · exact replayable other old
    · rw [List.mem_singleton.mp new]
      exact latest
  · rw [rebuilt_append]
    exact contents

theorem Command.Admitted.replayable (admitted : command.Admitted)
    (isRecorded : recordedAsSent command.uppercased) :
    Replayable (command.name :: command.args) :=
  ⟨admitted.sendable, command, admitted.spelled, isRecorded, admitted.plain⟩

theorem Command.Admitted.carryWords (admitted : command.Admitted) (space : Keyspace) :
    carryWords ⟨0, 0⟩ (command.name :: command.args) space = command.carry ⟨0, 0⟩ space := by
  have spelled : Command.parse (asCommand (command.name :: command.args)) = .ok command :=
    admitted.spelled
  simp only [RedisServer.carryWords, spelled]

/-- A command recorded as it came in. -/
theorem dispatch_recorded (recording : server.recording) (admitted : command.Admitted)
    (isRecorded : recordedAsSent command.uppercased) (recorded : Recorded records world) :
    (dispatch server client command).Ensures machine faithfully
      (fun after replied => replied.2 = client ∧ Faithful after) world := by
  refine (runAgainst_ensures isRecorded admitted.plain recorded.settled).bind
    fun after replied ran => ?_
  have sameLog : after.log = world.log := by rw [ran.world]
  unfold afterwards
  split
  · rename_i isError
    exact ⟨ran.client, records, ran.settled, sameLog ▸ recorded.log, recorded.replayable,
      (ran.refused isError).trans recorded.contents⟩
  · simp only [writtenDown, isRecorded, if_true]
    refine (noteDown_faithful recording ran.settled (sameLog ▸ recorded.log)
      recorded.replayable (admitted.replayable isRecorded) ?_ replied).mono
      fun last result noted => ⟨noted.1 ▸ ran.client, noted.2⟩
    rw [admitted.carryWords, ran.carried, recorded.contents]

/-! ## Blocking pops -/

/-- The command a blocking pop is written down as. -/
def lpopOf (key : Bytes) : Command := ⟨"LPOP", utf8 "LPOP", [key]⟩

theorem parse_lpopOf (key : Bytes) : Command.parse (lpopOf key).asSent = .ok (lpopOf key) :=
  Command.parse_capitals (by simp) (by decide) [key]

theorem lpopOf_plain (key : Bytes) : (lpopOf key).Plain :=
  Command.plain_of_few (by simp [lpopOf]) (by simp [lpopOf])

theorem replayable_lpopOf {key : Bytes} (small : key.length ≤ maxBulkLength) :
    Replayable [utf8 "LPOP", key] := by
  refine ⟨⟨by simp, Nat.le_of_ble_eq_true rfl, ?_⟩, lpopOf key, parse_lpopOf key, rfl,
    lpopOf_plain key⟩
  intro word member
  rcases List.mem_cons.mp member with rfl | member
  · decide
  · rw [List.mem_singleton.mp member]
    exact small

theorem carryWords_lpop (key : Bytes) (space : Keyspace) :
    carryWords ⟨0, 0⟩ [utf8 "LPOP", key] space = space.carry ⟨0, 0⟩ key (.lpop 1) := by
  have spelled : Command.parse (asCommand [utf8 "LPOP", key]) = .ok (lpopOf key) :=
    parse_lpopOf key
  simp only [carryWords, spelled]
  rfl

omit [Platform] in
theorem Lists.parseTimeout_isError {timeout : Bytes} {error : Value}
    (refused : Lists.parseTimeout timeout = .error error) : error.isError := by
  unfold Lists.parseTimeout at refused
  split at refused
  · cases refused
    rfl
  · split at refused
    · cases refused
      rfl
    · split at refused
      · cases refused
      · split at refused <;> cases refused
        rfl

/-- What a blocking pop that ends comes to: nothing, or one element taken from the
front. -/
inductive Popped (records : List (List Bytes)) (world : World) (args : List Bytes)
    (after : World) (reply : Value) : Prop where
  | nothing (recorded : Recorded records after) (none : reply.isError ∨ reply = .nullArray)
  | one (key element : Bytes) (rest : List Bytes) (named : args = key :: rest)
      (replied : reply = Lists.popped key (some element)) (log : after.log = world.log)
      (settled : after.store.Settled)
      (carried : after.store.contents =
        world.store.contents.carry ⟨0, 0⟩ key (.lpop 1))

omit [Platform] in
/-- A blocking pop touches nothing but the store, and ends with nothing taken or with one
element taken from the front. -/
theorem blpopProgram_pops {terms : Terms Env World} (args : List Bytes)
    (settled : world.store.Settled) (stuck : terms.stuck) (panicked : terms.panicked world) :
    (blpopProgram args).Ensures machine terms (fun after reply =>
      after = { world with store := after.store } ∧ after.store.Settled ∧
        ((after.store.contents = world.store.contents ∧ (reply.isError ∨ reply = .nullArray)) ∨
          ∃ key element rest, args = key :: rest ∧ reply = Lists.popped key (some element) ∧
            after.store.contents = world.store.contents.carry ⟨0, 0⟩ key (.lpop 1))) world := by
  unfold blpopProgram
  split
  · rename_i key timeout
    unfold Lists.blpop
    split
    · rename_i refused
      exact ⟨rfl, settled, .inl ⟨rfl, .inl (Lists.parseTimeout_isError refused)⟩⟩
    · intro env permitted
      simp only [machine, World.perform]
      cases performed : world.store.perform env.clock (.blpop key) with
      | none => exact panicked
      | some result =>
        obtain ⟨store, reply⟩ := result
        rcases settled.blpop performed with
          ⟨rfl, settled, same⟩ | ⟨element, rfl, settled, carried⟩ |
            ⟨receiver, rfl, same, waiting, settled⟩
        · exact ⟨rfl, settled, .inl ⟨same, .inl rfl⟩⟩
        · exact ⟨rfl, settled, .inr ⟨key, element, [timeout], rfl, rfl, carried ⟨0, 0⟩⟩⟩
        · intro env permitted
          simp only [World.perform, waiting]
          split
          · exact ⟨rfl, settled, .inl ⟨same, .inr rfl⟩⟩
          · exact stuck
  · exact ⟨rfl, settled, .inl ⟨rfl, .inl rfl⟩⟩

theorem blpopProgram_ensures (args : List Bytes) (recorded : Recorded records world) :
    (blpopProgram args).Ensures machine faithfully (Popped records world args) world := by
  have faithful : faithfully.panicked world := ⟨records, recorded⟩
  refine (blpopProgram_pops args recorded.settled True.intro faithful).mono
    fun after reply pops => ?_
  obtain ⟨same, settled, ⟨unchanged, nothing⟩ | ⟨key, element, rest, named, replied, carried⟩⟩ :=
    pops
  · refine .nothing ⟨settled, ?_, recorded.replayable, unchanged ▸ recorded.contents⟩ nothing
    rw [same]
    exact recorded.log
  · exact .one key element rest named replied (by rw [same]) settled carried

/-- A blocking pop is recorded as the pop it came to. -/
theorem dispatch_blpop (recording : server.recording) (admitted : command.Admitted)
    (isBlpop : command.uppercased = "BLPOP") (recorded : Recorded records world) :
    (dispatch server client command).Ensures machine faithfully
      (fun after replied => replied.2 = client ∧ Faithful after) world := by
  have unrecorded : recordedAsSent command.uppercased = false := by
    rw [isBlpop]
    rfl
  have popped : (client.kept (blpopProgram command.args)).Ensures machine faithfully
      (fun after replied => replied.2 = client ∧
        Popped records world command.args after replied.1) world :=
    (blpopProgram_ensures command.args recorded).bind fun _ _ popped => ⟨rfl, popped⟩
  unfold dispatch
  rw [runAgainst_blpop isBlpop]
  refine popped.bind fun after replied ended => ?_
  obtain ⟨reply, last⟩ := replied
  obtain ⟨same, ended⟩ := ended
  simp only at same ended
  subst same
  cases ended with
  | nothing still nothing =>
    rw [afterwards_unwritten]
    · exact ⟨rfl, records, still⟩
    · rcases nothing with isError | rfl
      · exact .inr isError
      · simp [writtenDown, unrecorded]
  | one key element rest named replied log settled carried =>
    have small : key.length ≤ maxBulkLength := admitted.sendable.small key (by simp [named])
    simp only [afterwards, replied, Lists.popped, Value.isError, writtenDown, isBlpop,
      named, if_true, Bool.false_eq_true, if_false]
    refine (noteDown_faithful recording settled (log ▸ recorded.log) recorded.replayable
      (replayable_lpopOf small) ?_ _).mono fun last result noted => ⟨noted.1 ▸ rfl, noted.2⟩
    rw [carryWords_lpop, carried, recorded.contents]

/-! ## Any command -/

/-- Only the commands that steer a transaction touch what it has queued. -/
theorem runAgainst_queued (server : Server) (client : Client) (command : Command) :
    (runAgainst server client command).Returns fun replied =>
      replied.2.transaction.queued = client.transaction.queued := by
  unfold runAgainst Client.kept
  dsimp only
  split
  · rename_i reply transaction ran
    unfold Transactions.run at ran
    split at ran
    · split at ran <;> cases ran <;> rfl
    · cases ran
  · split
    · exact .map (.of_forall (fun _ => rfl) _)
    · split
      · exact .map (.of_forall (fun _ => rfl) _)
      · split
        · exact .map (.of_forall (fun _ => rfl) _)
        · split
          · exact .map (.of_forall (fun _ => rfl) _)
          · rfl

theorem dispatch_harmless (unrecorded : recordedAsSent command.uppercased = false)
    (notBlpop : command.uppercased ≠ "BLPOP") (recorded : Recorded records world) :
    (dispatch server client command).Ensures machine faithfully
      (fun after replied => replied.2.transaction.queued = client.transaction.queued ∧
        Faithful after) world := by
  refine (harmless_ensures (runAgainst_harmless unrecorded notBlpop server client)
    (runAgainst_queued server client command) recorded).bind fun after replied still => ?_
  rw [afterwards_unwritten (.inl (by simp [writtenDown, unrecorded, notBlpop]))]
  exact ⟨still.2, records, still.1⟩

/-- Whatever command is dispatched, the log comes to what the store holds. -/
theorem dispatch_faithful (recording : server.recording) (admitted : command.Admitted)
    (faithful : Faithful world) :
    (dispatch server client command).Ensures machine faithfully
      (fun after replied => replied.2.transaction.queued = client.transaction.queued ∧
        Faithful after) world := by
  obtain ⟨records, recorded⟩ := faithful
  cases isRecorded : recordedAsSent command.uppercased with
  | true =>
    exact (dispatch_recorded recording admitted isRecorded recorded).mono
      fun _ _ noted => ⟨noted.1 ▸ rfl, noted.2⟩
  | false =>
    by_cases isBlpop : command.uppercased = "BLPOP"
    · exact (dispatch_blpop recording admitted isBlpop recorded).mono
        fun _ _ noted => ⟨noted.1 ▸ rfl, noted.2⟩
    · exact dispatch_harmless isRecorded isBlpop recorded

theorem execute_faithful (recording : server.recording) {queued : List Command}
    (admitted : ∀ command ∈ queued, command.Admitted) (replies : List Value)
    (faithful : Faithful world) :
    (execute server client replies queued).Ensures machine faithfully
      (fun after replied => replied.2.transaction.queued = client.transaction.queued ∧
        Faithful after) world := by
  induction queued generalizing client replies world with
  | nil => exact ⟨rfl, faithful⟩
  | cons command queued ih =>
    refine (dispatch_faithful recording (admitted command (by simp)) faithful).bind
      fun after replied ran => ?_
    refine (ih (fun other member => admitted other (by simp [member])) _ ran.2).mono
      fun last result rest => ⟨rest.1.trans ran.1, rest.2⟩

/-! ## Any client -/

/-- Every command a transaction has queued may come in. -/
def Transaction.Admitted (transaction : Transaction) : Prop :=
  ∀ queued, transaction.queued = some queued → ∀ command ∈ queued, command.Admitted

theorem Transactions.steer_returns {transaction : Transaction}
    (admitted : transaction.Admitted) {program : Prog (Transactions.Steered × Transaction)}
    (steered : Transactions.steer command transaction = some program) :
    program.Returns fun steered => steered.2.Admitted ∧
      ∀ queued, steered.1 = .execute queued → ∀ command ∈ queued, command.Admitted := by
  have fresh : Transaction.Admitted {} := fun _ none => nomatch none
  unfold Transactions.steer at steered
  split at steered
  · cases steered
    split
    · exact ⟨admitted, fun _ other => nomatch other⟩
    · refine ⟨fun queued isQueued => ?_, fun _ other => nomatch other⟩
      cases isQueued
      simp
    · exact ⟨admitted, fun _ other => nomatch other⟩
  · cases steered
    split
    · rename_i queued _ isQueued
      intro unchanged
      refine ⟨fresh, fun other executes => ?_⟩
      dsimp only at executes
      split at executes
      · cases executes
        exact admitted queued isQueued
      · cases executes
    · exact ⟨admitted, fun _ other => nomatch other⟩
    · exact ⟨admitted, fun _ other => nomatch other⟩
  · cases steered
    split
    · exact ⟨admitted, fun _ other => nomatch other⟩
    · exact ⟨admitted, fun _ other => nomatch other⟩
    · exact fun versions => ⟨admitted, fun _ other => nomatch other⟩
  · cases steered
    split
    · exact ⟨fresh, fun _ other => nomatch other⟩
    · exact ⟨admitted, fun _ other => nomatch other⟩
    · exact ⟨admitted, fun _ other => nomatch other⟩
  · cases steered

theorem carryOut_faithful (recording : server.recording) (admitted : command.Admitted)
    (queued : client.transaction.Admitted) (faithful : Faithful world) :
    (carryOut server client command).Ensures machine faithfully
      (fun after replied => replied.2.transaction.Admitted ∧ Faithful after) world := by
  unfold carryOut
  split
  · exact (dispatch_faithful recording admitted faithful).mono fun _ _ ran =>
      ⟨fun queue isQueue => queued queue (ran.1 ▸ isQueue), ran.2⟩
  · rename_i steered isSteered
    obtain ⟨records, recorded⟩ := faithful
    refine (harmless_ensures
      ((Transactions.steer_quiet isSteered).mono fun _ => Call.Quiet.harmless)
      (Transactions.steer_returns queued isSteered) recorded).bind fun after result still => ?_
    obtain ⟨still, fresh, executes⟩ := still
    obtain ⟨_ | queue, transaction⟩ := result
    · exact ⟨fresh, records, still⟩
    · exact (execute_faithful recording (executes queue rfl) [] ⟨records, still⟩).mono
        fun _ _ ran => ⟨fun queue isQueue => fresh queue (ran.1 ▸ isQueue), ran.2⟩

theorem runCommand_faithful (recording : server.recording) (admitted : command.Admitted)
    (queued : client.transaction.Admitted) (faithful : Faithful world) :
    (runCommand server client command).Ensures machine faithfully
      (fun after replied => replied.2.transaction.Admitted ∧ Faithful after) world := by
  unfold runCommand
  split
  · exact ⟨queued, faithful⟩
  · split
    · exact ⟨queued, faithful⟩
    · split
      · rename_i queue _ isQueue
        refine ⟨fun other isOther => ?_, faithful⟩
        cases isOther
        intro other member
        rcases List.mem_append.mp member with old | new
        · exact queued queue isQueue other old
        · rw [List.mem_singleton.mp new]
          exact admitted
      · exact (carryOut_faithful recording admitted queued faithful).map

/-- What came in over a connection is what a client can send. -/
theorem admitted_of_received {found : Value} (received : Received found)
    (spelled : Command.parse found = .ok command) (plain : command.Plain) :
    command.Admitted := by
  obtain rfl := eq_asSent_of_parse spelled
  exact ⟨received.sendable (by simp), spelled, plain⟩

theorem run_faithful (recording : server.recording) {found : Value}
    (received : Received found)
    (plain : ∀ command, Command.parse found = .ok command → command.Plain)
    (queued : client.transaction.Admitted) (faithful : Faithful world) :
    (run server client found).Ensures machine faithfully
      (fun after replied => replied.2.transaction.Admitted ∧ Faithful after) world := by
  unfold run
  split
  · exact ⟨queued, faithful⟩
  · rename_i command spelled
    exact runCommand_faithful recording
      (admitted_of_received received spelled (plain command spelled)) queued faithful

/-! ## Whole runs -/

/-- What is shared has a property, and what is queued may come in. -/
structure Service.Upholds (holds : World → Prop) (service : Service) : Prop where
  world : holds service.world
  queued : ∀ (id : Nat) (connection : Connection),
    service.connections[id]? = some connection → connection.client.transaction.Admitted

/-- A property that connections come and go without touching. -/
def Steadfast (holds : World → Prop) : Prop :=
  ∀ (world after : World) (more : List Replica), after.store = world.store →
    after.log = world.log → after.replicas = world.replicas ++ more → holds world → holds after

/-- What a command comes to upholds a property, and leaves only what may come in queued. -/
def Upheld (holds : World → Prop) : Outcome (Nat × World) (Answer × Client) → Prop
  | .stuck => True
  | .panicked last => holds last.2
  | .done last replied => replied.2.transaction.Admitted ∧ holds last.2

/-- An event of a run whose commands mean the same at any time. -/
def Event.Plain : Event → Prop
  | .command _ found =>
    Received found ∧ ∀ command, Command.parse found = .ok command → command.Plain
  | _ => True

theorem plain_of_events {events : List Event}
    (received : ∀ id found, .command id found ∈ events → Received found)
    (plain : ∀ id found command, .command id found ∈ events →
      Command.parse found = .ok command → ¬ command.CarriesExpiry ∧ ¬ command.AsksForId) :
    ∀ event ∈ events, event.Plain := by
  intro event member
  cases event with
  | command id found =>
    exact ⟨received id found member, fun command spelled =>
      ⟨(plain id found command member spelled).1, (plain id found command member spelled).2⟩⟩
  | _ => exact True.intro

omit [Platform] in
/-- Stores of the same contents give the same answers at any time. -/
theorem State.Undated.data_eq {store other : State} (undated : store.Undated)
    (otherUndated : other.Undated) (same : store.contents = other.contents) (now : Nat)
    (key : Bytes) :
    (store.live now key).map Entry.data = (other.live now key).map Entry.data := by
  have sameCell : (store.live now key).map Entry.cell = (other.live now key).map Entry.cell := by
    rw [undated.contents_eq, otherUndated.contents_eq, same]
  have dataOfCell (held : Option Entry) :
      held.map Entry.data = (held.map Entry.cell).map Cell.data := by
    cases held <;> rfl
  rw [dataOfCell, sameCell, ← dataOfCell]

theorem faithful_steadfast : Steadfast Faithful := by
  rintro world after more sameStore sameLog - ⟨records, recorded⟩
  exact ⟨records, recorded.congr sameStore sameLog⟩

namespace Service

variable {holds : World → Prop} {service : Service}

section

variable (steadfast : Steadfast holds)

include steadfast

theorem Upholds.close (upholds : service.Upholds holds) (id : Nat) :
    (service.close id).Upholds holds where
  world := steadfast service.world _ [] rfl rfl (List.append_nil _).symm upholds.world
  queued other connection found := by
    simp only [Service.close, Map.lookup_erase] at found
    split at found
    · cases found
    · exact upholds.queued other connection found

theorem Upholds.answered (upholds : service.Upholds holds) (id : Nat) (answer : Answer)
    {client : Client} (admitted : client.transaction.Admitted) :
    (service.answered id answer client).Upholds holds := by
  cases answer with
  | reply value =>
    refine ⟨upholds.world, fun other connection found => ?_⟩
    simp only [Service.answered, Map.lookup_insert] at found
    split at found
    · cases found
      exact admitted
    · exact upholds.queued other connection found
  | replica value =>
    exact ⟨steadfast service.world _ [{ connection := id }] rfl rfl rfl upholds.world,
      (upholds.close steadfast id).queued⟩

theorem Upholds.connect (upholds : service.Upholds holds) (id : Nat) :
    (service.connect id).Upholds holds := by
  unfold Service.connect
  split
  · exact upholds
  · refine ⟨steadfast service.world _ [] rfl rfl (List.append_nil _).symm upholds.world,
      fun other connection found => ?_⟩
    simp only [Map.lookup_insert] at found
    split at found
    · cases found
      exact fun _ none => nomatch none
    · exact upholds.queued other connection found

variable {supply : Nat → Env} {here next : Nat × Service} {condition : Nat × Service → Event → Prop}
  (runs : ∀ (here : Nat × Service) (id : Nat) (found : Value) (connection : Connection),
    here.2.Upholds holds → condition here (.command id found) →
    here.2.connections[id]? = some connection →
    Upheld holds ((run server connection.client found).exec machine supply here.1 here.2.world))

include runs

theorem Upholds.step {event : Event} (upholds : here.2.Upholds holds) (meets : condition here event)
    (stepped : Service.step server supply here event = some next) : next.2.Upholds holds := by
  cases event with
  | connect id =>
    cases stepped
    exact upholds.connect steadfast id
  | hangUp id =>
    cases stepped
    exact upholds.close steadfast id
  | command id found =>
    simp only [Service.step] at stepped
    split at stepped
    · cases stepped
      exact upholds
    · rename_i connection connected
      have upheld := runs here id found connection upholds meets connected
      split at stepped
      · cases stepped
      · rename_i world isPanic
        rw [isPanic] at upheld
        cases stepped
        have still : Service.Upholds holds { here.2 with world } := ⟨upheld, upholds.queued⟩
        exact still.close steadfast id
      · rename_i world answer client isDone
        rw [isDone] at upheld
        cases stepped
        have still : Service.Upholds holds { here.2 with world } := ⟨upheld.2, upholds.queued⟩
        exact still.answered steadfast id answer upheld.1

/-- What every command upholds is upheld by a run. -/
theorem Upholds.runAll {events : List Event} (upholds : here.2.Upholds holds)
    (meets : Run.Meets (Service.step server supply) condition here events)
    (ran : Service.runAll server supply here events = some next) : next.2.Upholds holds := by
  have same : Service.runAll server supply here events =
      Run.after (Service.step server supply) here events := by
    clear upholds meets ran
    induction events generalizing here with
    | nil => rfl
    | cons event events ih => simp only [Service.runAll, Run.after, ih]
  rw [same] at ran
  exact Run.invariant (fun here => here.2.Upholds holds)
    (fun _ _ _ upholds meets stepped => upholds.step steadfast runs meets stepped) upholds meets ran

end

variable {supply : Nat → Env}

/-- Between any two commands of a sequential run, the log read back and done again
comes to the keys and values the store holds. -/
theorem replay_of_sequential_run (server : Server) (recording : server.recording)
    (events : List Event)
    (received : ∀ id found, .command id found ∈ events → Received found)
    (plain : ∀ id found command, .command id found ∈ events →
      Command.parse found = .ok command → ¬ command.CarriesExpiry ∧ ¬ command.AsksForId)
    (supply later : Nat → Env) (appends : ∀ n, (supply n).append = none)
    (count : Nat) (service : Service)
    (ran : Service.runAll server supply (0, {}) events = some (count, service)) :
    ∃ commands used rebuilt replayed,
      Aof.recorded service.world.log = .ok commands ∧
      (replay { server with recording := false } {} 0 commands).exec machine later 0
        { log := service.world.log } = .done (used, rebuilt) replayed ∧
      ∀ now key, (rebuilt.store.live now key).map Entry.data =
        (service.world.store.live now key).map Entry.data := by
  have empty : Service.Upholds Faithful {} :=
    ⟨⟨[], State.settled_empty, rfl, by simp, by funext key; rfl⟩, by simp⟩
  have runs (here : Nat × Service) (id : Nat) (found : Value) (connection : Connection)
      (upholds : here.2.Upholds Faithful) (meets : True ∧ Event.Plain (.command id found))
      (isOpen : here.2.connections[id]? = some connection) :
      Upheld Faithful
        ((run server connection.client found).exec machine supply here.1 here.2.world) := by
    have ensures := (run_faithful recording meets.2.1 meets.2.2
      (upholds.queued id connection isOpen) upholds.world).exec appends here.1
    generalize (run server connection.client found).exec _ _ _ _ = outcome at ensures ⊢
    cases outcome <;> exact ensures
  obtain ⟨⟨records, recorded⟩, -⟩ := empty.runAll faithful_steadfast runs
    ((Run.meets_true _ _).and_mem (plain_of_events received plain)) ran
  obtain ⟨commands, used, after, replayed, readBack, ends, settled, contents⟩ :=
    @replay_recorded _ server _ _ recorded.replayable recorded.log later
  exact ⟨commands, used, after, replayed, readBack, ends,
    settled.undated.data_eq recorded.settled.undated (contents.trans recorded.contents.symm)⟩

/-- Two clients, a transaction with a command that is refused, and a blocking pop. -/
def mixedRun : List Event :=
  [.connect 0, .connect 1, .command 0 (typed ["SET", "name", "one"]),
    .command 1 (typed ["multi"]), .command 1 (typed ["RPUSH", "list", "a", "b"]),
    .command 1 (typed ["INCR", "name"]), .command 1 (typed ["exec"]),
    .command 0 (typed ["BLPOP", "list", "0"]), .command 0 (typed ["GET", "name"])]

omit [Platform] in
theorem mixedRun_received (id : Nat) (found : Value)
    (member : .command id found ∈ mixedRun) : Received found := by
  simp only [mixedRun, List.mem_cons, Event.command.injEq, reduceCtorEq, false_or,
    List.not_mem_nil, or_false] at member
  rcases member with ⟨-, rfl⟩ | ⟨-, rfl⟩ | ⟨-, rfl⟩ | ⟨-, rfl⟩ | ⟨-, rfl⟩ | ⟨-, rfl⟩ | ⟨-, rfl⟩ <;>
    exact typed_received (by simp) (by decide) (by decide +kernel)

omit [Platform] in
theorem mixedRun_plain (id : Nat) (found : Value) (command : Command)
    (member : .command id found ∈ mixedRun)
    (spelled : @Command.parse .ascii found = .ok command) :
    ¬ @Command.CarriesExpiry .ascii command ∧ ¬ command.AsksForId := by
  suffices plain : @Command.Plain .ascii command by
    obtain ⟨undated, named⟩ := plain
    exact ⟨undated, named⟩
  simp only [mixedRun, List.mem_cons, Event.command.injEq, reduceCtorEq, false_or,
    List.not_mem_nil, or_false] at member
  rcases member with ⟨-, rfl⟩ | ⟨-, rfl⟩ | ⟨-, rfl⟩ | ⟨-, rfl⟩ | ⟨-, rfl⟩ | ⟨-, rfl⟩ | ⟨-, rfl⟩ <;>
    cases spelled <;> exact @Command.plain_of_few .ascii _ (by decide +kernel) (by decide +kernel)

omit [Platform] in
theorem replay_of_mixedRun : ∃ count service,
    @runAll .ascii {} (fun _ => {}) (0, {}) mixedRun = some (count, service) ∧
      ∃ commands used rebuilt replayed,
        Aof.recorded service.world.log = .ok commands ∧
        (@replay .ascii { recording := false } {} 0 commands).exec machine (fun _ => {}) 0
          { log := service.world.log } = .done (used, rebuilt) replayed ∧
        ∀ now key, (rebuilt.store.live now key).map Entry.data =
          (service.world.store.live now key).map Entry.data := by
  have ends : (@runAll .ascii {} (fun _ => {}) (0, {}) mixedRun).isSome := by decide +kernel
  obtain ⟨⟨count, service⟩, ran⟩ := Option.isSome_iff_exists.mp ends
  exact ⟨count, service, ran, @replay_of_sequential_run .ascii {} rfl mixedRun
    mixedRun_received mixedRun_plain (fun _ => {}) (fun _ => {}) (fun _ => rfl) count service
    ran⟩

end Service

end RedisServer
