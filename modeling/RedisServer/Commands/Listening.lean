import RedisServer.Commands.Execution
import RedisServer.Lib.Noting

/-!
# What is run for a client that listens

A client that listens on a channel may use a few commands only, and the gate for that
stands where a command comes in.  A queued command is run later and passes no gate.
This module follows a connection through everything begun on its behalf, sent directly
or out of a queue, with the client as it was at that moment.
-/

namespace RedisServer

/-- A command begun for a client, and the client at that moment. -/
structure Begun where
  command : Command
  client : Client

/-- A client that listens is running something it may ask for. -/
def Begun.Allowed (begun : Begun) : Prop :=
  begun.client.subscriptions.listening = true →
    Pubsub.allowedWhileListening begun.command.uppercased = true

/-- Whether a queue, begun by a client on these channels, asks for nothing else as
long as the client listens. -/
def Command.keepsTo (on : List Bytes) : List Command → Bool
  | [] => true
  | command :: queued =>
    (on.isEmpty || Pubsub.allowedWhileListening command.uppercased) &&
      keepsTo (command.channelsAfter on) queued

theorem Begun.allowed_iff (begun : Begun) :
    begun.Allowed ↔ (begun.client.subscriptions.on.isEmpty ||
      Pubsub.allowedWhileListening begun.command.uppercased) = true := by
  cases silent : begun.client.subscriptions.on.isEmpty <;>
    simp [Begun.Allowed, Subscriptions.listening, silent]

section

variable [Platform]

/-- What a command leaves of its client's channels. -/
theorem dispatch_channels (server : Server) (client : Client) (command : Command) :
    (dispatch server client command).Returns fun replied =>
      replied.2.subscriptions.on = command.channelsAfter client.subscriptions.on := by
  by_cases isOn : command.uppercased = "SUBSCRIBE"
  · exact dispatch_unwritten (by simp [writtenDown, recordedAsSent, isOn])
      ((runAgainst_subscribe server client isOn).mono fun _ answers => answers.2)
  by_cases isOff : command.uppercased = "UNSUBSCRIBE"
  · exact dispatch_unwritten (by simp [writtenDown, recordedAsSent, isOff])
      ((runAgainst_unsubscribe server client isOff).mono fun _ answers => answers.2)
  · refine (dispatch_keeps server client isOn isOff).mono fun replied kept => ?_
    simp [kept, Command.channelsAfter, isOn, isOff]

/-! ## All that is begun for a connection -/

/-- `execute`, with a note of each command that is begun. -/
def executeNoted (server : Server) (client : Client) (replies : List Value) :
    List Command → Program (calls.noting Begun) (Value × Client)
  | [] => .ret (.array replies, client)
  | command :: queued =>
    .noted ⟨command, client⟩ ((dispatch server client command).noteless >>= fun replied =>
      executeNoted server replied.2 (replies ++ [replied.1]) queued)

/-- `carryOut`, with a note of the command and of those it runs out of the queue. -/
def carryOutNoted (server : Server) (client : Client) (command : Command) :
    Program (calls.noting Begun) (Value × Client) :=
  .noted ⟨command, client⟩ <|
    match Transactions.steer command client.transaction with
    | none => (dispatch server client command).noteless
    | some steered =>
      steered.noteless >>= fun
        | (.reply reply, transaction) => .ret (reply, { client with transaction })
        | (.execute queued, transaction) =>
          executeNoted server { client with transaction } [] queued

/-- `runCommand`, with a note of everything that is begun. -/
def runCommandNoted (server : Server) (client : Client) (command : Command) :
    Program (calls.noting Begun) (Answer × Client) :=
  if !client.authenticated && !Acl.allowedWhileOut command.uppercased then
    .ret (.reply Acl.needsAuthenticating, client)
  else if client.subscriptions.listening &&
      !Pubsub.allowedWhileListening command.uppercased then
    .ret (.reply (Pubsub.outOfContext command.uppercased), client)
  else
    match Transactions.steersATransaction command.uppercased, client.transaction.queued with
    | false, some queued =>
      .ret (.reply (.simpleString "QUEUED"),
        { client with
          transaction := { client.transaction with queued := some (queued ++ [command]) } })
    | _, _ => answer command <$> carryOutNoted server client command

/-- `run`, with a note of everything that is begun. -/
def runNoted (server : Server) (client : Client) (value : Value) :
    Program (calls.noting Begun) (Answer × Client) :=
  match Command.parse value with
  | .error reply => .ret (.reply reply, client)
  | .ok command => runCommandNoted server client command

theorem unnoted_executeNoted (server : Server) (client : Client) (replies : List Value)
    (queued : List Command) :
    (executeNoted server client replies queued).unnoted =
      execute server client replies queued := by
  induction queued generalizing client replies with
  | nil => rfl
  | cons command queued ih =>
    simp only [executeNoted, execute, Program.unnoted_noted, Program.unnoted_bind,
      Program.unnoted_noteless, Program.bind_eq, ih]

theorem unnoted_carryOutNoted (server : Server) (client : Client) (command : Command) :
    (carryOutNoted server client command).unnoted = carryOut server client command := by
  unfold carryOutNoted carryOut
  rw [Program.unnoted_noted]
  cases Transactions.steer command client.transaction with
  | none => exact Program.unnoted_noteless _
  | some steered =>
    simp only [Program.unnoted_bind, Program.unnoted_noteless, Program.bind_eq]
    congr 1
    funext came
    obtain ⟨outcome, transaction⟩ := came
    cases outcome with
    | reply reply => rfl
    | execute queued => exact unnoted_executeNoted _ _ _ _

/-- The notes aside, this is `run`. -/
theorem unnoted_runNoted (server : Server) (client : Client) (value : Value) :
    (runNoted server client value).unnoted = run server client value := by
  unfold runNoted run
  cases Command.parse value with
  | error reply => rfl
  | ok command =>
    simp only [runCommandNoted, runCommand]
    split
    · rfl
    split
    · rfl
    have carried : (answer command <$> carryOutNoted server client command).unnoted =
        answer command <$> carryOut server client command := by
      rw [Program.unnoted_map, unnoted_carryOutNoted]
    cases Transactions.steersATransaction command.uppercased with
    | true => exact carried
    | false =>
      cases client.transaction.queued with
      | none => exact carried
      | some queued => rfl

/-- A connection from this client on: the values it sends, each answered before the next
and the last one perhaps not yet, and what is begun for each of them. -/
inductive Session (server : Server) : Client → List Value → List (List Begun) → Prop where
  | nil (client : Client) : Session server client [] []
  | last {client : Client} {value : Value} {steps : List (Step Env World)} {begun : List Begun}
      {result : Option (Answer × Client)}
      (taken : (runNoted server client value).Notes machine steps begun result) :
      Session server client [value] [begun]
  | next {client after : Client} {value reply : Value} {steps : List (Step Env World)}
      {begun : List Begun} {values : List Value} {trace : List (List Begun)}
      (taken : (runNoted server client value).Notes machine steps begun
        (some (.reply reply, after)))
      (later : Session server after values trace) :
      Session server client (value :: values) (begun :: trace)

/-- Values a connection sends that are all answered, one after the other. -/
inductive Answered (server : Server) : Client → List Value → Client → Prop where
  | nil (client : Client) : Answered server client [] client
  | cons {client middle last : Client} {value reply : Value} {steps : List (Step Env World)}
      {values : List Value}
      (ran : (run server client value).Runs machine steps (.reply reply, middle))
      (rest : Answered server middle values last) :
      Answered server client (value :: values) last

/-- Whatever is sent and answered makes a session. -/
theorem Answered.session {server : Server} {client last : Client} {values : List Value}
    (answered : Answered server client values last) :
    ∃ trace, Session server client values trace := by
  induction answered with
  | nil client => exact ⟨[], .nil client⟩
  | cons ran rest ih =>
    obtain ⟨trace, later⟩ := ih
    rw [← unnoted_runNoted] at ran
    obtain ⟨begun, taken⟩ := ran.notes
    exact ⟨begun :: trace, .next taken later⟩

/-- And in a session everything before the last value is answered by a run of it. -/
theorem Session.answered {server : Server} {client : Client} {values : List Value} {value : Value}
    {trace : List (List Begun)} (session : Session server client (values ++ [value]) trace) :
    ∃ last, Answered server client values last := by
  induction values generalizing client trace with
  | nil => exact ⟨client, .nil client⟩
  | cons first values ih =>
    rw [List.cons_append] at session
    generalize isRest : values ++ [value] = rest at session
    cases session with
    | last taken => simp at isRest
    | next taken later =>
      obtain ⟨last, answered⟩ := ih (isRest ▸ later)
      have ran := taken.runs
      rw [unnoted_runNoted] at ran
      exact ⟨last, .cons ran answered⟩

/-! ### What is allowed -/

theorem executeNoted_allowed_iff {server : Server} {client : Client} {replies : List Value}
    {queued : List Command} {steps : List (Step Env World)} {begun : List Begun}
    {result : Option (Value × Client)}
    (taken : (executeNoted server client replies queued).Notes machine steps begun result) :
    (∀ one ∈ begun, one.Allowed) ↔
      Command.keepsTo client.subscriptions.on (begun.map Begun.command) = true := by
  induction queued generalizing client replies steps begun with
  | nil => cases taken <;> simp [Command.keepsTo]
  | cons command queued ih =>
    cases taken with
    | stop => simp [Command.keepsTo]
    | note rest =>
      rcases rest.noteless_bind with rfl | ⟨first, last, replied, ran, later⟩
      · simp [Command.keepsTo, Begun.allowed_iff]
      · have isOn := ran.returns (dispatch_channels server client command)
        have allowed := ih later
        rw [isOn] at allowed
        rw [List.forall_mem_cons, Begun.allowed_iff, allowed, List.map_cons, Command.keepsTo,
          Bool.and_eq_true]

theorem carryOutNoted_allowed_iff {server : Server} {client : Client} {command : Command}
    (allowed : Begun.Allowed ⟨command, client⟩) {steps : List (Step Env World)}
    {begun : List Begun} {result : Option (Value × Client)}
    (taken : (carryOutNoted server client command).Notes machine steps begun result) :
    (∀ one ∈ begun, one.Allowed) ↔
      Command.keepsTo [] (begun.tail.map Begun.command) = true := by
  cases taken with
  | stop => simp [Command.keepsTo]
  | note rest =>
    rw [List.forall_mem_cons, List.tail_cons, and_iff_right allowed]
    split at rest
    · simp [rest.noteless, Command.keepsTo]
    · rename_i found
      rcases rest.noteless_bind with rfl | ⟨first, last, ⟨outcome, transaction⟩, ran, later⟩
      · simp [Command.keepsTo]
      · cases outcome with
        | reply reply => cases later <;> simp [Command.keepsTo]
        | execute queued =>
          -- `EXEC` itself is nothing a client may ask for while it listens
          have isExec := ran.returns (Transactions.steer_execute found) queued rfl
          have silent : client.subscriptions.on = [] := by
            by_contra listens
            have := allowed (by simpa [Subscriptions.listening] using listens)
            simp [isExec, Pubsub.allowedWhileListening] at this
          simpa [silent] using executeNoted_allowed_iff later

theorem runNoted_allowed_iff {server : Server} {client : Client} {value : Value}
    {steps : List (Step Env World)} {begun : List Begun} {result : Option (Answer × Client)}
    (taken : (runNoted server client value).Notes machine steps begun result) :
    (∀ one ∈ begun, one.Allowed) ↔
      Command.keepsTo [] (begun.tail.map Begun.command) = true := by
  unfold runNoted at taken
  split at taken
  · cases taken <;> simp [Command.keepsTo]
  · rename_i command parsed
    unfold runCommandNoted at taken
    split at taken
    · cases taken <;> simp [Command.keepsTo]
    split at taken
    · cases taken <;> simp [Command.keepsTo]
    rename_i heard
    split at taken
    · cases taken <;> simp [Command.keepsTo]
    · obtain ⟨result, taken⟩ := taken.map_inv
      refine carryOutNoted_allowed_iff (fun listens => ?_) taken
      simpa [listens] using heard

/-- Whatever is sent on a connection, nothing is begun for a client that listens but what
it may ask for, if and only if every queue that is run, as far as it is run, keeps to that
by itself. -/
theorem begun_allowed_iff (server : Server) (client : Client) (values : List Value)
    (trace : List (List Begun)) (session : Session server client values trace) :
    (∀ begun ∈ trace, ∀ one ∈ begun, one.Allowed) ↔
      ∀ begun ∈ trace, Command.keepsTo [] (begun.tail.map Begun.command) = true := by
  induction session with
  | nil client => simp
  | last taken => simpa using runNoted_allowed_iff taken
  | next taken later ih =>
    rw [List.forall_mem_cons, List.forall_mem_cons, runNoted_allowed_iff taken, ih]

end

/-- A connection that is on these channels and has these commands put aside. -/
def subscriber (on : List Bytes) (queued : Option (List Command)) : Client :=
  { subscriptions := { on, listener := some 0 }, transaction := { queued } }

/-- What is begun for `MULTI`, `SUBSCRIBE c`, a third command and `EXEC`. -/
def subscribedThen (third : Command) : List (List Begun) :=
  let subscribe : Command := ⟨"SUBSCRIBE", utf8 "SUBSCRIBE", [utf8 "c"]⟩
  [[⟨⟨"MULTI", utf8 "MULTI", []⟩, subscriber [] none⟩], [], [],
    [⟨⟨"EXEC", utf8 "EXEC", []⟩, subscriber [] (some [subscribe, third])⟩,
      ⟨subscribe, subscriber [] none⟩, ⟨third, subscriber [utf8 "c"] none⟩]]

theorem subscribedThen_session {third : Command} {value : Value}
    (parsed : @Command.parse .ascii value = .ok third)
    (unsteered : Transactions.steersATransaction third.uppercased = false) :
    @Session .ascii {} (subscriber [] none)
      [typed ["MULTI"], typed ["SUBSCRIBE", "c"], value, typed ["EXEC"]]
      (subscribedThen third) := by
  let _ := Platform.ascii
  let subscribe : Command := ⟨"SUBSCRIBE", utf8 "SUBSCRIBE", [utf8 "c"]⟩
  have multi : (runNoted {} (subscriber [] none) (typed ["MULTI"])).Notes machine []
      [⟨⟨"MULTI", utf8 "MULTI", []⟩, subscriber [] none⟩]
      (some (.reply ok, subscriber [] (some []))) := .note (.ret _)
  have first : (runNoted {} (subscriber [] (some [])) (typed ["SUBSCRIBE", "c"])).Notes machine
      [] [] (some (.reply (.simpleString "QUEUED"), subscriber [] (some [subscribe]))) := .ret _
  have second : (runNoted {} (subscriber [] (some [subscribe])) value).Notes machine [] []
      (some (.reply (.simpleString "QUEUED"), subscriber [] (some [subscribe, third]))) := by
    have queues : runNoted {} (subscriber [] (some [subscribe])) value = .ret
        (.reply (.simpleString "QUEUED"), subscriber [] (some [subscribe, third])) := by
      simp only [runNoted, parsed, runCommandNoted, unsteered]
      rfl
    rw [queues]
    exact .ret _
  have exec : (runNoted {} (subscriber [] (some [subscribe, third])) (typed ["EXEC"])).Notes
      machine [⟨{}, {}, {}⟩, ⟨{}, {}, _⟩]
      [⟨⟨"EXEC", utf8 "EXEC", []⟩, subscriber [] (some [subscribe, third])⟩,
        ⟨subscribe, subscriber [] none⟩, ⟨third, subscriber [utf8 "c"] none⟩] none :=
    .note (.call rfl (.note (.call rfl (.note (.stop _)))))
  exact .next multi (.next first (.next second (.last exec)))

theorem begun_allowed_ping :
    @Session .ascii {} (subscriber [] none)
        [typed ["MULTI"], typed ["SUBSCRIBE", "c"], typed ["PING"], typed ["EXEC"]]
        (subscribedThen ⟨"PING", utf8 "PING", []⟩) ∧
      ∀ begun ∈ subscribedThen ⟨"PING", utf8 "PING", []⟩, ∀ one ∈ begun, one.Allowed := by
  have session := subscribedThen_session (show @Command.parse .ascii (typed ["PING"]) = _ from rfl)
    rfl
  exact ⟨session, (@begun_allowed_iff .ascii {} _ _ _ session).mpr (by decide)⟩

theorem get_begun_while_listening :
    ∃ trace, @Session .ascii {} (subscriber [] none)
        [typed ["MULTI"], typed ["SUBSCRIBE", "c"], typed ["GET", "k"], typed ["EXEC"]] trace ∧
      ∃ begun ∈ trace, ∃ one ∈ begun,
        one.client.subscriptions.listening = true ∧ one.command.uppercased = "GET" ∧
          Pubsub.allowedWhileListening one.command.uppercased = false :=
  ⟨subscribedThen ⟨"GET", utf8 "GET", [utf8 "k"]⟩,
    subscribedThen_session (show @Command.parse .ascii (typed ["GET", "k"]) = _ from rfl) rfl,
    _, List.mem_of_getLast? rfl, _, List.mem_of_getLast? rfl, rfl, rfl, rfl⟩

end RedisServer
