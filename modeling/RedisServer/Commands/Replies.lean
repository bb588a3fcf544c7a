import RedisServer.Commands.Clean

/-!
# What is written back for a command

A command is answered with one value of the protocol, those apart that are not meant to
be, unless a text that came from the client is put into the line of an error and runs
over its end.
-/

namespace RedisServer

variable {command : Command} {server : Server}

/-! ## Texts of the client's in a reply -/

/-- The reply is one value when the text it names, if it names any, is one line. -/
def OneValueWhen (named : Option String) (reply : Value) : Prop :=
  OneValue reply.encode ↔ ∀ text ∈ named, OneLine (utf8 text)

theorem Value.Clean.oneValueWhen {reply : Value} (clean : reply.Clean) :
    OneValueWhen none reply :=
  iff_of_true clean.oneValue (by simp)

theorem oneValueWhen_naming {before named after : String} (noReturn : '\r' ∉ before.toList)
    (noReturn' : '\r' ∉ after.toList) (start : (utf8 after).head? ≠ some 10) :
    OneValueWhen (some named) (.error (before ++ named ++ after)) := by
  rw [OneValueWhen, oneValue_naming noReturn noReturn' start]
  simp

theorem unknownCommand_naming (name : Bytes) :
    OneValueWhen (some (fromUtf8Lossy name)) (unknownCommand name) :=
  oneValueWhen_naming (by simp) (by simp) (by decide)

namespace Acl

/-- The word an answer to `ACL` names: a rule that cannot be followed, or an action
there is no answer for. -/
def named : List Bytes → Option Bytes
  | [] => none
  | action :: rest =>
    if eqIgnoreAsciiCase action (utf8 "WHOAMI") then
      match rest with
      | [] => none
      | _ => some action
    else if eqIgnoreAsciiCase action (utf8 "GETUSER") then
      match rest with
      | [_] => none
      | _ => some action
    else if eqIgnoreAsciiCase action (utf8 "SETUSER") then
      match rest with
      | user :: rule :: rules =>
        if user ≠ defaultUser then none
        else
          match passwordsGiven (rule :: rules) with
          | .error rule => some rule
          | .ok _ => none
      | _ => some action
    else some action

theorem unknownAction_naming (action : Bytes) :
    OneValueWhen (some (fromUtf8Lossy action)) (unknownAction action) :=
  oneValueWhen_naming (by simp) (by simp) (by decide)

theorem badRule_naming (rule : Bytes) :
    OneValueWhen (some (fromUtf8Lossy rule)) (badRule rule) :=
  oneValueWhen_naming (by simp) (by simp) (by decide)

theorem userNamed_clean (user : Bytes) : (userNamed user).Returns Value.Clean := by
  unfold userNamed
  split
  · exact clean_nullArray
  · intro wantsNone hashed
    cases wantsNone <;> simp

variable [Platform]

theorem addPasswords_clean (passwords : List Bytes) :
    (addPasswords passwords).Returns Value.Clean := by
  induction passwords with
  | nil => exact clean_ok
  | cons password passwords ih => exact fun _ => ih

theorem acl_naming (args : List Bytes) :
    (acl args).Returns (OneValueWhen ((named args).map fromUtf8Lossy)) := by
  have unnamed {program : Prog Value} (clean : program.Returns Value.Clean) :
      program.Returns (OneValueWhen none) := clean.mono fun _ => Value.Clean.oneValueWhen
  rcases args with _ | ⟨action, rest⟩
  · exact unnamed (clean_wrongArity (by simp))
  · simp only [acl, named]
    split
    · rcases rest with _ | ⟨word, rest⟩
      · exact unnamed (clean_bulkString _)
      · exact unknownAction_naming _
    · split
      · rcases rest with _ | ⟨user, _ | ⟨word, rest⟩⟩
        · exact unknownAction_naming _
        · exact unnamed (userNamed_clean _)
        · exact unknownAction_naming _
      · split
        · rcases rest with _ | ⟨user, _ | ⟨rule, rules⟩⟩
          · exact unknownAction_naming _
          · exact unknownAction_naming _
          · simp only [setUser]
            split
            · exact unnamed (clean_error (by simp))
            · cases passwordsGiven (rule :: rules) with
              | error rule => exact badRule_naming _
              | ok passwords => exact unnamed (addPasswords_clean _)
        · exact unknownAction_naming _

theorem authenticate_clean (user password : Bytes) (authenticated : Bool) :
    (authenticate user password authenticated).Returns fun replied => replied.1.Clean := by
  have refused : wrongPassword.Clean := clean_error (by simp)
  unfold authenticate
  split
  · exact refused
  · intro accepted
    cases accepted
    · exact refused
    · exact clean_ok

theorem alone_clean (password : Bytes) (authenticated : Bool) :
    (alone password authenticated).Returns fun replied => replied.1.Clean := by
  intro wantsNone
  cases wantsNone
  · exact authenticate_clean defaultUser password authenticated
  · exact clean_error (by simp)

end Acl

/-- The word an answer to `CONFIG` names: an action there is no answer for. -/
def Settings.named : List Bytes → Option Bytes
  | [] => none
  | action :: _ => if eqIgnoreAsciiCase action (utf8 "GET") then none else some action

theorem Settings.settings_clean (server : Server) (names : List Bytes) :
    (Value.array (Settings.settings names server)).Clean := by
  simp only [clean_array, Settings.settings, List.mem_flatMap]
  rintro found ⟨name, -, member⟩
  split at member
  · simp only [List.mem_cons, List.not_mem_nil, or_false] at member
    rcases member with rfl | rfl <;> exact clean_bulk _
  · simp at member

theorem Settings.run_naming {name : String} {args : List Bytes} {program : Prog Value}
    (found : Settings.run server name args = some program) :
    program.Returns (OneValueWhen ((Settings.named args).map fromUtf8Lossy)) := by
  unfold Settings.run at found
  split at found <;> cases found
  rcases args with _ | ⟨action, names⟩
  · exact (clean_wrongArity (by simp)).oneValueWhen
  · simp only [Settings.named]
    split
    · rcases names with _ | ⟨name, names⟩
      · exact (clean_wrongArity (by simp)).oneValueWhen
      · exact (Settings.settings_clean server _).oneValueWhen
    · exact oneValueWhen_naming (by simp) (by simp) (by decide)

/-! ## Any command -/

/-- The commands some module answers. -/
def knownCommands : List String :=
  ["UNWATCH", "PUBLISH", "SUBSCRIBE", "UNSUBSCRIBE", "PING", "ECHO", "SET", "GET", "INCR",
    "RPUSH", "LPUSH", "LPOP", "BLPOP", "LLEN", "LRANGE", "XADD", "XRANGE", "XREAD", "ZADD",
    "ZRANK", "ZREM", "ZSCORE", "ZCARD", "ZRANGE", "GEOADD", "GEOPOS", "GEODIST", "GEOSEARCH",
    "TYPE", "KEYS", "ACL", "AUTH", "INFO", "CONFIG", "REPLCONF", "PSYNC", "WAIT"]

/-- The text of the client's that the answer to a command names. -/
def Command.named (command : Command) : Option String :=
  if command.uppercased = "ACL" then (Acl.named command.args).map fromUtf8Lossy
  else if command.uppercased = "CONFIG" then (Settings.named command.args).map fromUtf8Lossy
  else if command.uppercased ∈ knownCommands then none
  else some (fromUtf8Lossy command.name)

section

variable [Platform] {name : String} {args : List Bytes} {program : Prog Value}

/-- A command that no module answers is not one of those known. -/
theorem knownCommands_answered {client : Client}
    (transactions : Transactions.run name args client.transaction = none)
    (pubsub : Pubsub.run name args client.subscriptions = none)
    (store : runOnStore server name args = none)
    (acl : Acl.run name args client.authenticated = none)
    (others : runOnServer server name args = none) : name ∉ knownCommands := by
  simp only [runOnStore, runOnServer, Option.orElse_eq_orElse, Option.orElse_eq_or,
    Option.or_eq_none_iff] at store others
  intro known
  unfold knownCommands at known
  fin_cases known <;>
    simp [Transactions.run, Pubsub.run, Strings.run, Lists.run, Streams.run, SortedSets.run,
      Geo.run, Keys.run, Acl.run, Info.run, Settings.run, Replication.run]
      at transactions pubsub store acl others

/-- A command that is not known is one no module answers. -/
theorem runAgainst_unknown {client : Client} (unknown : command.uppercased ∉ knownCommands) :
    runAgainst server client command = .ret (unknownCommand command.name, client) := by
  simp only [knownCommands, List.mem_cons, List.not_mem_nil, or_false, not_or] at unknown
  have transactions : Transactions.run command.uppercased command.args client.transaction =
      none := by
    unfold Transactions.run
    split <;> simp_all
  have pubsub : Pubsub.run command.uppercased command.args client.subscriptions = none := by
    unfold Pubsub.run
    split <;> simp_all
  have acl : Acl.run command.uppercased command.args client.authenticated = none := by
    unfold Acl.run
    split <;> simp_all
  have store : runOnStore server command.uppercased command.args = none := by
    simp only [runOnStore, Option.orElse_eq_orElse, Option.orElse_eq_or, Option.or_eq_none_iff]
    refine ⟨?strings, ?lists, ?streams, ?sortedSets, ?geo, ?keys⟩
    case strings => unfold Strings.run; split <;> simp_all
    case lists => unfold Lists.run; split <;> simp_all
    case streams => unfold Streams.run; split <;> simp_all
    case sortedSets => unfold SortedSets.run; split <;> simp_all
    case geo => unfold Geo.run; split <;> simp_all
    case keys => unfold Keys.run; split <;> simp_all
  have others : runOnServer server command.uppercased command.args = none := by
    simp only [runOnServer, Option.orElse_eq_orElse, Option.orElse_eq_or, Option.or_eq_none_iff]
    refine ⟨?info, ?settings, ?replication⟩
    case info => unfold Info.run; split <;> simp_all
    case settings => unfold Settings.run; split <;> simp_all
    case replication => unfold Replication.run; split <;> simp_all
  simp only [runAgainst, transactions, pubsub, store, acl, others]

/-- The commands whose answer may be more than one value, or none. -/
def answersApart (command : String) : Bool :=
  command ∈ ["SUBSCRIBE", "UNSUBSCRIBE", "PSYNC"]

/-- A command that is answered with one value names a text at most. -/
theorem runAgainst_naming (server : Server) (client : Client)
    (together : answersApart command.uppercased = false) :
    (runAgainst server client command).Returns fun replied =>
      OneValueWhen command.named replied.1 := by
  obtain ⟨name, spelled, args⟩ := command
  simp only [answersApart, List.mem_cons, List.not_mem_nil, or_false, decide_eq_false_iff_not,
    not_or] at together
  obtain ⟨notOn, notOff, notPsync⟩ := together
  by_cases isKnown : name ∈ knownCommands
  case neg =>
    have naming : Command.named ⟨name, spelled, args⟩ = some (fromUtf8Lossy spelled) := by
      have notAcl : name ≠ "ACL" := by rintro rfl; exact isKnown (by decide)
      have notConfig : name ≠ "CONFIG" := by rintro rfl; exact isKnown (by decide)
      simp [Command.named, isKnown, notAcl, notConfig]
    rw [runAgainst_unknown isKnown, naming]
    exact unknownCommand_naming spelled
  case pos =>
    have unnamed {reply : Value} (notAcl : name ≠ "ACL") (notConfig : name ≠ "CONFIG")
        (clean : reply.Clean) : OneValueWhen (Command.named ⟨name, spelled, args⟩) reply := by
      have naming : Command.named ⟨name, spelled, args⟩ = none := by
        simp [Command.named, isKnown, notAcl, notConfig]
      rw [naming]
      exact clean.oneValueWhen
    unfold runAgainst
    dsimp only
    split
    · rename_i reply transaction found
      exact unnamed (by rintro rfl; cases found) (by rintro rfl; cases found)
        (Transactions.run_clean found)
    split
    · rename_i found
      refine .map ((Pubsub.run_clean notOn notOff found).mono fun replied clean => ?_)
      exact unnamed (by rintro rfl; cases found) (by rintro rfl; cases found) clean
    split
    · rename_i found
      refine .map ((runOnStore_clean found).mono fun replied clean => ?_)
      exact unnamed (by rintro rfl; cases found) (by rintro rfl; cases found) clean
    split
    · rename_i found
      refine .map ?_
      unfold Acl.run at found
      split at found
      · cases found
        exact .map (Acl.acl_naming args)
      · cases found
        split
        · exact (Acl.alone_clean _ _).mono fun _ clean => unnamed (by decide) (by decide) clean
        · exact (Acl.authenticate_clean _ _ _).mono
            fun _ clean => unnamed (by decide) (by decide) clean
        · exact unnamed (by decide) (by decide) (clean_wrongArity (by simp))
      · cases found
    split
    · rename_i found
      simp only [runOnServer, Option.orElse_eq_orElse, Option.orElse_eq_or,
        Option.or_eq_some_iff] at found
      refine .map ?_
      rcases found with found | ⟨-, found | ⟨-, found⟩⟩
      · exact (Info.run_clean found).mono fun _ clean =>
          unnamed (by rintro rfl; cases found) (by rintro rfl; cases found) clean
      · have isConfig : name = "CONFIG" := by
          unfold Settings.run at found
          split at found
          · rfl
          · cases found
        subst isConfig
        exact Settings.run_naming found
      · exact (Replication.run_clean notPsync found).mono fun _ clean =>
          unnamed (by rintro rfl; cases found) (by rintro rfl; cases found) clean
    · exact absurd isKnown (knownCommands_answered ‹_› ‹_› ‹_› ‹_› ‹_›)

omit [Platform] in
theorem Command.named_of_writtenDown {reply : Value}
    (isWritten : (writtenDown command reply).isSome) : command.named = none := by
  have wrote : command.uppercased ∈
      ["SET", "INCR", "RPUSH", "LPUSH", "LPOP", "XADD", "ZADD", "ZREM", "GEOADD", "BLPOP"] := by
    unfold writtenDown at isWritten
    split at isWritten
    · rename_i recorded
      simp only [recordedAsSent, decide_eq_true_eq] at recorded
      exact List.mem_append_left ["BLPOP"] recorded
    · split at isWritten
      · rename_i isBlpop
        simp [isBlpop]
      · cases isWritten
  obtain ⟨name, spelled, args⟩ := command
  fin_cases wrote <;> rfl

/-- Recording a command and passing it on leaves its reply one value if it was one. -/
theorem dispatch_naming (server : Server) (client : Client)
    (together : answersApart command.uppercased = false) :
    (dispatch server client command).Returns fun replied =>
      OneValueWhen command.named replied.1 := by
  refine (runAgainst_naming server client together).bind fun replied naming => ?_
  refine (afterwards_returns server command replied).mono fun result came => ?_
  rcases came with rfl | ⟨rfl, isWritten⟩
  · exact naming
  · rw [Command.named_of_writtenDown isWritten]
    exact clean_unrecorded.oneValueWhen

omit [Platform] in
/-- What steering a transaction is answered with, `EXEC` apart. -/
theorem Transactions.steer_clean {transaction : Transaction}
    {program : Prog (Transactions.Steered × Transaction)} (notExec : command.uppercased ≠ "EXEC")
    (found : Transactions.steer command transaction = some program) :
    program.Returns fun steered => ∃ reply, steered.1 = .reply reply ∧ reply.Clean := by
  unfold Transactions.steer at found
  split at found
  · cases found
    split
    · exact ⟨_, rfl, clean_error (by simp)⟩
    · exact ⟨_, rfl, clean_ok⟩
    · exact ⟨_, rfl, clean_wrongArity (by simp)⟩
  · rename_i isExec
    exact absurd isExec notExec
  · cases found
    split
    · exact ⟨_, rfl, clean_wrongArity (by simp)⟩
    · exact ⟨_, rfl, clean_error (by simp)⟩
    · exact fun versions => ⟨_, rfl, clean_ok⟩
  · cases found
    split
    · exact ⟨_, rfl, clean_ok⟩
    · exact ⟨_, rfl, clean_error (by simp)⟩
    · exact ⟨_, rfl, clean_wrongArity (by simp)⟩
  · cases found

end

/-- The bytes an answer is written in. -/
def Answer.encode : Answer → Bytes
  | .reply value => value.encode
  | .replica value => value.encode

section

variable [Platform]

/-- The text of the client's that its command is answered with: one that may not be
used while listening is named in lower case, and nothing is said of one that needs
letting in first, steers a transaction or is put in a queue. -/
def Client.echoed (client : Client) (command : Command) : Option String :=
  if !client.authenticated && !Acl.allowedWhileOut command.uppercased then none
  else if client.subscriptions.listening &&
      !Pubsub.allowedWhileListening command.uppercased then
    some (Platform.toLowercase command.uppercased)
  else if Transactions.steersATransaction command.uppercased then none
  else if client.transaction.queued.isSome then none
  else command.named

/-- The same for any words; a name that is no text is named as it is. -/
def Client.echoedOf (client : Client) (words : List Bytes) : Option String :=
  match Command.parse (asCommand words) with
  | .ok command => client.echoed command
  | .error _ => words.head?.map fromUtf8Lossy

omit [Platform] in
theorem answer_encode (command : Command) (replied : Value × Client) :
    (answer command replied).1.encode = replied.1.encode := by
  unfold answer
  split <;> rfl

omit [Platform] in
theorem Transactions.steer_isSome (command : Command) (transaction : Transaction) :
    (Transactions.steer command transaction).isSome =
      Transactions.steersATransaction command.uppercased := by
  unfold Transactions.steer Transactions.steersATransaction
  split <;> simp_all

theorem Pubsub.outOfContext_naming (command : String) :
    OneValueWhen (some (Platform.toLowercase command)) (Pubsub.outOfContext command) := by
  unfold Pubsub.outOfContext
  rw [String.append_assoc]
  exact oneValueWhen_naming (by simp) (by simp) (by decide)

theorem carryOut_naming (server : Server) (client : Client)
    (together : answersApart command.uppercased = false) (notExec : command.uppercased ≠ "EXEC") :
    (carryOut server client command).Returns fun replied =>
      OneValueWhen
        (if Transactions.steersATransaction command.uppercased then none else command.named)
        replied.1 := by
  rw [← Transactions.steer_isSome command client.transaction]
  cases found : Transactions.steer command client.transaction with
  | none =>
    simp only [carryOut, found]
    exact dispatch_naming server client together
  | some steered =>
    simp only [carryOut, found]
    refine (Transactions.steer_clean notExec found).bind ?_
    rintro ⟨_, transaction⟩ ⟨reply, rfl, clean⟩
    exact clean.oneValueWhen

theorem runCommand_naming (server : Server) (client : Client)
    (together : answersApart command.uppercased = false) (notExec : command.uppercased ≠ "EXEC") :
    (runCommand server client command).Returns fun answered =>
      OneValue answered.1.encode ↔ ∀ text ∈ client.echoed command, OneLine (utf8 text) := by
  unfold runCommand Client.echoed
  split
  · exact Value.Clean.oneValueWhen (clean_error (by simp))
  split
  · exact Pubsub.outOfContext_naming _
  have naming := carryOut_naming server client together notExec
  cases steers : Transactions.steersATransaction command.uppercased with
  | true =>
    rw [steers] at naming
    exact .map (naming.mono fun replied => by rw [answer_encode]; exact id)
  | false =>
    cases client.transaction.queued with
    | some queued => exact Value.Clean.oneValueWhen (oneLine_of_no_return (by simp))
    | none =>
      rw [steers] at naming
      exact .map (naming.mono fun replied => by rw [answer_encode]; exact id)

/-- Every command sent as an array of bulk strings, those apart whose answer is not one
value by design, is answered with exactly one value if and only if the text of the
client's that the answer names is one line. -/
theorem reply_oneValue_iff (server : Server) (client : Client) (words : List Bytes)
    (answeredOnce : ∀ command, Command.parse (asCommand words) = .ok command →
      command.uppercased ∉ ["SUBSCRIBE", "UNSUBSCRIBE", "PSYNC", "EXEC"])
    {steps : List (Step Env World)} {answer : Answer} {after : Client}
    (runs : (run server client (asCommand words)).Runs machine steps (answer, after)) :
    OneValue answer.encode ↔ ∀ text ∈ client.echoedOf words, OneLine (utf8 text) := by
  unfold Client.echoedOf
  unfold run at runs
  split at runs
  · rename_i reply refused
    cases runs
    unfold Command.parse at refused
    rw [intoParts_asCommand] at refused
    rcases words with _ | ⟨name, args⟩
    · cases refused
      exact Value.Clean.oneValueWhen (clean_error (by simp))
    · dsimp only at refused
      split at refused <;> cases refused
      rename_i noText
      have parsed : Command.parse (asCommand (name :: args)) = .error (unknownCommand name) := by
        simp [Command.parse, noText]
      rw [parsed]
      exact unknownCommand_naming name
  · rename_i command parsed
    rw [parsed]
    have apart := answeredOnce command parsed
    simp only [List.mem_cons, List.not_mem_nil, or_false, not_or] at apart
    refine runs.returns (runCommand_naming server client ?_ apart.2.2.2)
    simp [answersApart, apart]

end

theorem reply_oneValue_nope :
    OneValue (Answer.reply (unknownCommand (utf8 "NOPE"))).encode := by
  have runs : (@run .ascii {} {} (asCommand [utf8 "NOPE"])).Runs machine []
      (.reply (unknownCommand (utf8 "NOPE")), {}) := .ret _
  refine (@reply_oneValue_iff .ascii {} {} [utf8 "NOPE"] ?_ _ _ _ runs).mpr ?_
  · intro command parsed
    cases parsed
    decide
  · intro text isText
    cases isText
    exact oneLine_of_no_return (fromUtf8Lossy_no_return (by decide))

/-- The name of a command that is not known is put into a line as it came, line ends
and all. -/
theorem reply_runs_over :
    ∃ steps answer after,
      (@run .ascii {} {} (asCommand [utf8 "a\r\nb"])).Runs machine steps (answer, after) ∧
        ¬ OneValue answer.encode := by
  refine ⟨[], .reply (unknownCommand (utf8 "a\r\nb")), {}, .ret _, ?_⟩
  rw [Answer.encode, unknownCommand, oneValue_naming (by simp) (by simp) (by decide)]
  intro oneLine
  exact absurd (line_eq_none_of_oneLine oneLine) (by decide +kernel)

end RedisServer
