import RedisServer.Commands.Refused
import RedisServer.Commands.Replies

/-!
# What `EXEC` is answered with

The replies of the commands that were queued are put into one array as they come.  A
confirmation of more than one channel and the dataset `PSYNC` hands over are not one
element, though they are counted as one.
-/

namespace RedisServer

variable {command : Command} {server : Server} {client : Client} {word : Bytes} {args : List Bytes}

/-- One array, of just these elements. -/
def ArrayOf (parts : List Bytes) (bytes : Bytes) : Prop :=
  (∀ part ∈ parts, OneValue part) ∧ bytes = header 42 (decimal parts.length) ++ parts.flatten

theorem arrayOf_encode (values : List Value) :
    ArrayOf (values.map Value.encode) (Value.array values).encode ↔
      ∀ found ∈ values, OneValue found.encode := by
  have spelled : (Value.array values).encode =
      header 42 (decimal (values.map Value.encode).length) ++
        (values.map Value.encode).flatten := by
    rw [Value.encode, encodeAll_eq_flatMap, List.flatMap_def, List.length_map]
  simp [ArrayOf, spelled]

theorem ArrayOf.oneValue {parts : List Bytes} {bytes : Bytes} (isArray : ArrayOf parts bytes) :
    OneValue bytes :=
  isArray.2 ▸ .array parts isArray.1

/-! ## The channels of a client -/

/-- The channels a client listens on once it has taken one on. -/
def joining (on : List Bytes) (channel : Bytes) : List Bytes :=
  if channel ∈ on then on else on ++ [channel]

/-- The channels a client is left listening on. -/
def leaving (on : List Bytes) (channel : Bytes) : List Bytes :=
  if channel ∈ on then on.erase channel else on

namespace Command

/-- The channels a client listens on after a command. -/
def channelsAfter (command : Command) (on : List Bytes) : List Bytes :=
  if command.uppercased = "SUBSCRIBE" then command.args.foldl joining on
  else if command.uppercased = "UNSUBSCRIBE" then
    (if command.args.isEmpty then on else command.args).foldl leaving on
  else on

/-- Whether a command is answered with one value, its words being of one line: one
channel at a time is joined or left, and no dataset is handed over. -/
def answersOnce (command : Command) (on : List Bytes) : Bool :=
  if command.uppercased = "SUBSCRIBE" then command.args.length ≤ 1
  else if command.uppercased = "UNSUBSCRIBE" then
    if command.args.isEmpty then on.length ≤ 1 else command.args.length = 1
  else if command.uppercased = "PSYNC" then command.args.length ≠ 2
  else true

/-- Whether each of the commands in a queue is answered with one value. -/
def allAnswerOnce (on : List Bytes) : List Command → Bool
  | [] => true
  | command :: queued =>
    command.answersOnce on && allAnswerOnce (command.channelsAfter on) queued

/-- A command whose words hold no byte of a line end. -/
def Unbroken (command : Command) : Prop :=
  ∀ word ∈ command.name :: command.args, 13 ∉ word ∧ 10 ∉ word

end Command

/-! ## One command of a queue -/

theorem oneValue_confirm (what : String) (channel : Bytes) (count : Nat) :
    OneValue (Pubsub.confirm what channel count).encode :=
  Value.Clean.oneValue (by simp [Pubsub.confirm, Pubsub.confirmNaming])

theorem encode_ne_nil {found : Value} (isValue : OneValue found.encode) : found.encode ≠ [] := by
  intro isNil
  obtain ⟨kind, payload, body, same, -⟩ := isValue.header_follows
  rw [isNil] at same
  cases same

/-- Several values after one another are one value when they are one. -/
theorem oneValue_sequence {values : List Value} (each : ∀ found ∈ values, OneValue found.encode)
    (someValue : values ≠ []) :
    OneValue (Value.sequence values).encode ↔ values.length = 1 := by
  rcases values with _ | ⟨first, _ | ⟨second, rest⟩⟩
  · exact absurd rfl someValue
  · have alone := each first List.mem_cons_self
    simpa [Value.encode, encodeAll] using alone
  · refine iff_of_false (fun isValue => ?_) (by simp)
    have isFirst := each first List.mem_cons_self
    have isSecond := each second (by simp)
    have same : (Value.sequence (first :: second :: rest)).encode ++ [] =
        first.encode ++ (second.encode ++ encodeAll rest) := by
      simp [Value.encode, encodeAll]
    have nothing := (isValue.append_inj isFirst same).2
    exact encode_ne_nil isSecond (List.append_eq_nil_iff.mp nothing.symm).1

/-- What `each` comes to: a confirmation for each channel. -/
theorem Pubsub.each_returns_confirmed {what : String}
    {change : Subscriptions → Bytes → Prog (Nat × Subscriptions)}
    {after : List Bytes → Bytes → List Bytes}
    (changes : ∀ subscriptions channel, (change subscriptions channel).Returns
      fun changed => changed.2.on = after subscriptions.on channel)
    (channels : List Bytes) (subscriptions : Subscriptions) (replies : List Value)
    (earlier : ∀ reply ∈ replies, OneValue reply.encode) :
    (Pubsub.each what change subscriptions replies channels).Returns fun replied =>
      (∃ values, replied.1 = .sequence values ∧ values.length = replies.length + channels.length ∧
        ∀ found ∈ values, OneValue found.encode) ∧
      replied.2.on = channels.foldl after subscriptions.on := by
  induction channels generalizing subscriptions replies with
  | nil => exact ⟨⟨replies, rfl, by simp, earlier⟩, rfl⟩
  | cons channel channels ih =>
    refine (changes subscriptions channel).bind fun changed isAfter => ?_
    refine (ih changed.2 _ ?_).mono fun replied => ?_
    · simp only [List.mem_append, List.mem_singleton]
      rintro reply (before | rfl)
      · exact earlier reply before
      · exact oneValue_confirm _ _ _
    · rintro ⟨⟨values, isReply, length, each⟩, isOn⟩
      refine ⟨⟨values, isReply, ?_, each⟩, ?_⟩
      · simp only [List.length_append, List.length_cons, List.length_nil] at length ⊢
        omega
      · rw [isOn, isAfter, List.foldl_cons]

theorem Subscriptions.tell_returns {subscriptions : Subscriptions} {call : Nat → Call}
    {post : Nat × Subscriptions → Prop} {next : Prog (Nat × Subscriptions)}
    (returns : next.Returns post) : (subscriptions.tell call next).Returns post := by
  unfold Subscriptions.tell
  split
  · exact fun _ => returns
  · exact returns

theorem Subscriptions.add_returns (subscriptions : Subscriptions) (channel : Bytes) :
    (subscriptions.add channel).Returns fun changed =>
      changed.2.on = joining subscriptions.on channel := by
  unfold Subscriptions.add joining
  split
  · rfl
  · exact Subscriptions.tell_returns rfl

theorem Subscriptions.remove_returns (subscriptions : Subscriptions) (channel : Bytes) :
    (subscriptions.remove channel).Returns fun changed =>
      changed.2.on = leaving subscriptions.on channel := by
  unfold Subscriptions.remove leaving
  split
  · exact Subscriptions.tell_returns rfl
  · rfl

/-- Joining and leaving channels is answered with one value when one channel is named. -/
theorem Pubsub.each_answers {what : String}
    {change : Subscriptions → Bytes → Prog (Nat × Subscriptions)}
    {after : List Bytes → Bytes → List Bytes}
    (changes : ∀ subscriptions channel, (change subscriptions channel).Returns
      fun changed => changed.2.on = after subscriptions.on channel)
    {channels : List Bytes} (someChannel : channels ≠ []) (subscriptions : Subscriptions) :
    (Pubsub.each what change subscriptions [] channels).Returns fun replied =>
      (OneValue replied.1.encode ↔ channels.length = 1) ∧
        replied.2.on = channels.foldl after subscriptions.on := by
  refine (Pubsub.each_returns_confirmed changes channels subscriptions [] (by simp)).mono ?_
  rintro ⟨reply, left⟩ ⟨⟨values, rfl, length, each⟩, isOn⟩
  have counted : values.length = channels.length := by simpa using length
  refine ⟨?_, isOn⟩
  have someValue : values ≠ [] := by
    rintro rfl
    exact someChannel (List.length_eq_zero_iff.mp counted.symm)
  rw [oneValue_sequence each someValue, counted]

/-! ## Words of one line -/

theorem oneLine_fromUtf8Lossy (noReturn : 13 ∉ word) :
    OneLine (utf8 (fromUtf8Lossy word)) :=
  oneLine_of_no_return (fromUtf8Lossy_no_return noReturn)

theorem Acl.mem_of_passwordsGiven {rules : List Bytes} {rule : Bytes}
    (refused : Acl.passwordsGiven rules = .error rule) : rule ∈ rules := by
  fun_induction Acl.passwordsGiven rules with
  | case1 => cases refused
  | case2 rules first password ih =>
    cases later : Acl.passwordsGiven rules with
    | error other =>
      rw [later] at refused ih
      cases refused
      exact List.mem_cons_of_mem _ (ih rfl)
    | ok passwords =>
      rw [later] at refused
      cases refused
  | case3 =>
    cases refused
    exact List.mem_cons_self

theorem Acl.mem_of_named (named : word ∈ Acl.named args) :
    word ∈ args := by
  unfold Acl.named at named
  split at named
  · cases named
  · rename_i action rest
    have isAction (same : word ∈ some action) : word ∈ action :: rest := by
      cases same
      exact List.mem_cons_self
    split at named
    · split at named
      · cases named
      · exact isAction named
    · split at named
      · split at named
        · cases named
        · exact isAction named
      · split at named
        · split at named
          · split at named
            · cases named
            · split at named <;> cases named
              exact List.mem_cons_of_mem _
                (List.mem_cons_of_mem _ (Acl.mem_of_passwordsGiven ‹_›))
          · exact isAction named
        · exact isAction named

theorem Settings.mem_of_named (named : word ∈ Settings.named args) : word ∈ args := by
  unfold Settings.named at named
  split at named
  · cases named
  · split at named <;> cases named
    exact List.mem_cons_self

/-- What the answer to an unbroken command names is one line. -/
theorem Command.Unbroken.oneLine_named (unbroken : command.Unbroken) :
    ∀ text ∈ command.named, OneLine (utf8 text) := by
  intro text named
  unfold Command.named at named
  split at named
  · obtain ⟨word, isWord, rfl⟩ := Option.map_eq_some_iff.mp named
    exact oneLine_fromUtf8Lossy (unbroken word (List.mem_cons_of_mem _ (Acl.mem_of_named isWord))).1
  · split at named
    · obtain ⟨word, isWord, rfl⟩ := Option.map_eq_some_iff.mp named
      exact oneLine_fromUtf8Lossy
        (unbroken word (List.mem_cons_of_mem _ (Settings.mem_of_named isWord))).1
    · split at named <;> cases named
      exact oneLine_fromUtf8Lossy (unbroken _ List.mem_cons_self).1

/-! ## A command of a queue -/

theorem Pubsub.run_keeps {name : String} {subscriptions : Subscriptions}
    {program : Prog (Value × Subscriptions)} (notOn : name ≠ "SUBSCRIBE")
    (notOff : name ≠ "UNSUBSCRIBE") (found : Pubsub.run name args subscriptions = some program) :
    program.Returns fun replied => replied.2 = subscriptions := by
  unfold Pubsub.run at found
  split at found
  · cases found
    split
    · exact fun reached => rfl
    · rfl
  · exact absurd rfl notOn
  · exact absurd rfl notOff
  · split at found <;> cases found
    rfl
  · cases found

/-- What hands a dataset over does not end as a value does. -/
theorem not_oneValue_handedOver (text : String) :
    ¬ OneValue (Value.sequence [.simpleString text, .file Replication.emptyDataset]).encode := by
  intro isValue
  generalize same : (Value.sequence [.simpleString text, .file Replication.emptyDataset]).encode =
    bytes at isValue
  cases isValue with
  | simpleString oneLine =>
    have last := congrArg (fun bytes => bytes.reverse.head?) same
    simp [Value.encode, encodeAll, header, crlf, Replication.emptyDataset] at last
  | _ => simp [Value.encode, encodeAll, header] at same

section

variable [Platform]

/-- What a command is answered with and where it leaves its client's channels. -/
def Answers (command : Command) (on : List Bytes) (replied : Value × Client) : Prop :=
  (OneValue replied.1.encode ↔ command.answersOnce on) ∧
    replied.2.subscriptions.on = command.channelsAfter on

theorem runAgainst_keeps (server : Server) (client : Client)
    (notOn : command.uppercased ≠ "SUBSCRIBE") (notOff : command.uppercased ≠ "UNSUBSCRIBE") :
    (runAgainst server client command).Returns fun replied =>
      replied.2.subscriptions = client.subscriptions := by
  unfold runAgainst
  dsimp only
  split
  · rfl
  split
  · exact .map (Pubsub.run_keeps notOn notOff ‹_›)
  split
  · exact .map (.of_forall (fun _ => rfl) _)
  split
  · exact .map (.of_forall (fun _ => rfl) _)
  split
  · exact .map (.of_forall (fun _ => rfl) _)
  · rfl

theorem runAgainst_subscribe (server : Server) (client : Client)
    (isOn : command.uppercased = "SUBSCRIBE") :
    (runAgainst server client command).Returns
      (Answers command client.subscriptions.on) := by
  obtain ⟨name, spelled, args⟩ := command
  subst isOn
  rcases args with _ | ⟨channel, channels⟩
  · exact ⟨iff_of_true (clean_wrongArity (by simp)).oneValue rfl, rfl⟩
  · refine .map ((Pubsub.each_answers Subscriptions.add_returns (List.cons_ne_nil channel channels)
      client.subscriptions).mono fun replied answers => ⟨?_, answers.2⟩)
    rw [answers.1]
    simp [Command.answersOnce]

theorem runAgainst_unsubscribe (server : Server) (client : Client)
    (isOff : command.uppercased = "UNSUBSCRIBE") :
    (runAgainst server client command).Returns
      (Answers command client.subscriptions.on) := by
  obtain ⟨name, spelled, args⟩ := command
  subst isOff
  rcases args with _ | ⟨channel, channels⟩
  · refine .map (show (Pubsub.givenUp client.subscriptions).Returns _ from ?_)
    unfold Pubsub.givenUp
    by_cases nothing : client.subscriptions.on = []
    · rw [if_pos (by simp [nothing])]
      refine ⟨iff_of_true (Value.Clean.oneValue ?_) ?_, ?_⟩
      · simp [Pubsub.confirmNaming]
      · simp [Command.answersOnce, nothing]
      · simp [Command.channelsAfter, nothing]
    · rw [if_neg (by simp [nothing])]
      refine (Pubsub.each_answers Subscriptions.remove_returns nothing
        client.subscriptions).mono fun replied answers => ⟨?_, answers.2⟩
      have listens := List.length_pos_iff.mpr nothing
      rw [answers.1]
      simp only [Command.answersOnce]
      simp
      omega
  · refine .map ((Pubsub.each_answers Subscriptions.remove_returns
      (List.cons_ne_nil channel channels)
      client.subscriptions).mono fun replied answers => ⟨?_, answers.2⟩)
    rw [answers.1]
    simp [Command.answersOnce]

theorem runAgainst_psync (server : Server) (client : Client)
    (isPsync : command.uppercased = "PSYNC") :
    (runAgainst server client command).Returns fun replied =>
      OneValue replied.1.encode ↔ command.args.length ≠ 2 := by
  obtain ⟨name, spelled, args⟩ := command
  subst isPsync
  have refused : OneValue (wrongArity "psync").encode := (clean_wrongArity (by simp)).oneValue
  rcases args with _ | ⟨first, _ | ⟨second, _ | ⟨third, rest⟩⟩⟩
  · exact iff_of_true refused (by simp)
  · exact iff_of_true refused (by simp)
  · intro offset
    exact iff_of_false (not_oneValue_handedOver _) (by simp)
  · exact iff_of_true refused (by simp)

theorem dispatch_unwritten {post : Value × Client → Prop}
    (unwritten : ∀ reply, writtenDown command reply = none)
    (returns : (runAgainst server client command).Returns post) :
    (dispatch server client command).Returns post := by
  refine returns.bind fun replied holds => ?_
  refine (afterwards_returns server command replied).mono fun result came => ?_
  rcases came with rfl | ⟨-, isWritten⟩
  · exact holds
  · rw [unwritten] at isWritten
    cases isWritten

theorem dispatch_keeps (server : Server) (client : Client)
    (notOn : command.uppercased ≠ "SUBSCRIBE") (notOff : command.uppercased ≠ "UNSUBSCRIBE") :
    (dispatch server client command).Returns fun replied =>
      replied.2.subscriptions = client.subscriptions := by
  refine (runAgainst_keeps server client notOn notOff).bind fun replied keeps => ?_
  refine (afterwards_returns server command replied).mono fun result came => ?_
  rcases came with rfl | ⟨rfl, -⟩
  · exact keeps
  · exact keeps

/-- A command of a queue, its words of one line, is answered with one value as `answersOnce`
says. -/
theorem dispatch_answers (server : Server) (client : Client) (unbroken : command.Unbroken) :
    (dispatch server client command).Returns (Answers command client.subscriptions.on) := by
  by_cases isOn : command.uppercased = "SUBSCRIBE"
  · exact dispatch_unwritten (by simp [writtenDown, recordedAsSent, isOn])
      (runAgainst_subscribe server client isOn)
  by_cases isOff : command.uppercased = "UNSUBSCRIBE"
  · exact dispatch_unwritten (by simp [writtenDown, recordedAsSent, isOff])
      (runAgainst_unsubscribe server client isOff)
  have keeps := dispatch_keeps server client isOn isOff
  have after : command.channelsAfter client.subscriptions.on = client.subscriptions.on := by
    simp [Command.channelsAfter, isOn, isOff]
  by_cases isPsync : command.uppercased = "PSYNC"
  · have once := dispatch_unwritten (by simp [writtenDown, recordedAsSent, isPsync])
      (runAgainst_psync server client isPsync)
    refine (once.and keeps).mono fun replied came => ⟨?_, by rw [came.2, after]⟩
    rw [came.1]
    simp [Command.answersOnce, isPsync]
  · have together : answersApart command.uppercased = false := by
      simp [answersApart, isOn, isOff, isPsync]
    refine ((dispatch_naming server client together).and keeps).mono
      fun replied came => ⟨?_, by rw [came.2, after]⟩
    refine iff_of_true (came.1.mpr unbroken.oneLine_named) ?_
    simp [Command.answersOnce, isOn, isOff, isPsync]

/-! ## The whole queue -/

/-- Each reply of a queue is one value when each of its commands is answered with one. -/
theorem CarriedOut.oneValue_iff {last : Client} {each : List Dispatched}
    (carriedOut : CarriedOut server client each last)
    (unbroken : ∀ one ∈ each, one.command.Unbroken) :
    (∀ one ∈ each, OneValue one.reply.encode) ↔
      Command.allAnswerOnce client.subscriptions.on (each.map Dispatched.command) := by
  induction carriedOut with
  | nil client => simp [Command.allAnswerOnce]
  | @cons command before middle last steps reply each ran rest ih =>
    rw [List.forall_mem_cons] at unbroken
    obtain ⟨once, isOn⟩ := ran.returns (dispatch_answers server before unbroken.1)
    rw [List.forall_mem_cons, once, ih unbroken.2, isOn, List.map_cons, Command.allAnswerOnce,
      Bool.and_eq_true]

/-- A transaction that was not aborted passed the check of its watched keys and then
carried out its queue. -/
theorem execute_of_exec {queued : List Command} (inside : client.transaction.queued = some queued)
    {name : Bytes} (isExec : Command.parse (asCommand [name]) = .ok ⟨"EXEC", name, []⟩)
    {steps : List (Step Env World)} {replies : List Value} {after : Client}
    (runs : (run server client (asCommand [name])).Runs machine steps
      (.reply (.array replies), after)) :
    ∃ first rest, steps = first :: rest ∧
      (execute server { client with transaction := {} } [] queued).Runs machine rest
        (.array replies, after) := by
  simp only [run, isExec, runCommand] at runs
  split at runs
  · cases runs
  · split at runs
    · cases runs
    · obtain ⟨replied, isAnswer, ran⟩ := Program.Runs.map_inv runs
      obtain ⟨value, client'⟩ := replied
      cases isAnswer
      simp only [carryOut, Transactions.steer, inside] at ran
      cases ran with
      | @call _ _ env before world unchanged later _ performed rest =>
        cases unchanged
        · cases rest
        · exact ⟨_, _, rfl, rest⟩

/-- Once a transaction has been carried out, its commands one after the other with these
replies, what is written for `EXEC` is one array of exactly the replies, which leaves a
reader at its end, if and only if each of them is a command that is answered once. -/
theorem exec_arrayOf_iff (server : Server) (client : Client) (queued : List Command)
    (inside : client.transaction.queued = some queued)
    (unbroken : ∀ command ∈ queued, command.Unbroken)
    {name : Bytes} (isExec : Command.parse (asCommand [name]) = .ok ⟨"EXEC", name, []⟩)
    {steps : List (Step Env World)} {replies : List Value} {after : Client}
    (runs : (run server client (asCommand [name])).Runs machine steps
      (.reply (.array replies), after)) :
    (∃ each, CarriedOut server { client with transaction := {} } each after ∧
      each.map Dispatched.command = queued ∧ each.map Dispatched.reply = replies) ∧
    (ArrayOf (replies.map Value.encode) (Answer.reply (.array replies)).encode ∧
        OneValue (Answer.reply (.array replies)).encode ↔
      Command.allAnswerOnce client.subscriptions.on queued) := by
  obtain ⟨first, rest, -, ran⟩ := execute_of_exec inside isExec runs
  obtain ⟨each, carriedOut, rfl, isReply, -⟩ := execute_carriedOut ran
  cases isReply
  refine ⟨⟨each, carriedOut, rfl, rfl⟩, ?_⟩
  have once := carriedOut.oneValue_iff fun one member => unbroken _ (List.mem_map_of_mem member)
  rw [List.nil_append, Answer.encode, and_iff_left_of_imp ArrayOf.oneValue, arrayOf_encode, ← once]
  simp

end

/-- A client inside a transaction, with a key it watches. -/
def Client.inside (queued : List Command) : Client :=
  { transaction :=
      { queued := some queued, watched := (∅ : Map Bytes (Option Nat)).insert (utf8 "k") none }
    subscriptions := { listener := some 0 } }

/-- A write, a channel joined, and all channels left again. -/
def setJoinLeave : List Command :=
  [⟨"SET", utf8 "SET", [utf8 "k", utf8 "v"]⟩, ⟨"SUBSCRIBE", utf8 "SUBSCRIBE", [utf8 "c"]⟩,
    ⟨"UNSUBSCRIBE", utf8 "UNSUBSCRIBE", []⟩]

theorem exec_arrayOf_setJoinLeave : ∃ steps replies after,
    (@run .ascii {} (.inside setJoinLeave) (asCommand [utf8 "EXEC"])).Runs machine steps
        (.reply (.array replies), after) ∧
      replies.length = 3 ∧
      ArrayOf (replies.map Value.encode) (Answer.reply (.array replies)).encode := by
  let confirmed (what : String) (count : Nat) :=
    Value.sequence [Pubsub.confirm what (utf8 "c") count]
  have runs : ∃ steps, (@run .ascii {} (.inside setJoinLeave) (asCommand [utf8 "EXEC"])).Runs
      machine steps (.reply (.array [ok, confirmed "subscribe" 1, confirmed "unsubscribe" 0]),
        { subscriptions := { listener := some 0 } }) :=
    ⟨[⟨{}, {}, {}⟩, ⟨{}, {}, _⟩, ⟨{}, {}, _⟩, ⟨{}, {}, _⟩, ⟨{}, {}, _⟩, ⟨{}, {}, _⟩, ⟨{}, {}, _⟩],
      .call rfl (.call rfl (.call rfl (.call rfl (.call rfl (.call rfl (.call rfl (.ret _)))))))⟩
  obtain ⟨steps, runs⟩ := runs
  obtain ⟨-, isArray⟩ := @exec_arrayOf_iff .ascii {} (.inside _) _ rfl
    (by simp [setJoinLeave, Command.Unbroken]; decide) (utf8 "EXEC") rfl _ _ _ runs
  exact ⟨steps, _, _, runs, rfl, (isArray.mpr rfl).1⟩

/-- Two channels joined inside a transaction are confirmed one after the other, and the
array that was to hold one element is followed by another. -/
theorem exec_runs_over :
    ∃ opened joined steps answer after,
      (@run .ascii {} { subscriptions := { listener := some 0 } } (typed ["MULTI"])).Runs machine
        [] (.reply ok, opened) ∧
      (@run .ascii {} opened (typed ["SUBSCRIBE", "a", "b"])).Runs machine []
        (.reply (.simpleString "QUEUED"), joined) ∧
      (@run .ascii {} joined (typed ["EXEC"])).Runs machine steps (.reply answer, after) ∧
      ¬ OneValue answer.encode := by
  let confirmed (channel : String) (count : Nat) := Pubsub.confirm "subscribe" (utf8 channel) count
  let opened : Client :=
    { transaction := { queued := some [] }, subscriptions := { listener := some 0 } }
  let joined : Client :=
    { opened with
      transaction :=
        { queued := some [⟨"SUBSCRIBE", utf8 "SUBSCRIBE", [utf8 "a", utf8 "b"]⟩] } }
  have executed : ∃ steps, (@run .ascii {} joined (typed ["EXEC"])).Runs machine steps
      (.reply (.array [.sequence [confirmed "a" 1, confirmed "b" 2]]),
        { subscriptions := { on := [utf8 "a", utf8 "b"], listener := some 0 } }) :=
    ⟨_, @Program.Runs.call calls World Env _ machine (.store (.unchanged [])) _ {} {} {} true _ _
        rfl <|
      @Program.Runs.call calls World Env _ machine (.joined (utf8 "a") 0) _ {} {} _ () _ _ rfl <|
      @Program.Runs.call calls World Env _ machine (.joined (utf8 "b") 0) _ {} {} _ () _ _ rfl <|
      .ret _⟩
  obtain ⟨steps, runs⟩ := executed
  refine ⟨opened, joined, steps, _, _, .ret _, .ret _, runs, ?_⟩
  intro isValue
  have isArray : OneValue (header 42 (decimal 1) ++ [(confirmed "a" 1).encode].flatten) :=
    .array [_] (by simpa using oneValue_confirm _ _ _)
  have same : (Value.array [.sequence [confirmed "a" 1, confirmed "b" 2]]).encode ++ [] =
      (header 42 (decimal 1) ++ [(confirmed "a" 1).encode].flatten) ++
        (confirmed "b" 2).encode := by
    simp [Value.encode, encodeAll]
  exact encode_ne_nil (oneValue_confirm _ _ _) (isValue.append_inj isArray same).2.symm

end RedisServer
