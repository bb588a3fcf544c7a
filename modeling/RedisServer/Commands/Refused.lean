import RedisServer.Commands.Shape

/-!
# A refused command changes nothing

A command answered with an error has changed no key, no password and no channel, and
has left its connection as it was.  That holds whatever others do between its calls,
and for each of the commands of a transaction as well.
-/

namespace RedisServer

variable {server : Server} {command : Command} {replied result : Value × Client} {client : Client}
  {env : Env} {args : List Bytes}

/-- What a step that changes nothing may do: drop entries whose time has passed. -/
structure Kept (step : Step Env World) : Prop where
  entries : Lapsed step.env.clock.now step.before.store.entries step.after.store.entries
  passwords : step.after.passwords = step.before.passwords
  channels : step.after.channels = step.before.channels

/-- What a store call that wrote to no key has left. -/
theorem kept_of_unwritten {world : World} {after : State} {call : StoreCall} {reply : call.Reply}
    (proper : world.store.Proper) (called : call.Proper)
    (unwritten : ∀ key, call.wrote key reply = false)
    (performed : world.store.perform env.clock call = some (after, reply)) :
    Kept ⟨env, world, { world with store := after }⟩ := by
  refine ⟨fun key => ?_, rfl, rfl⟩
  have touched := (State.perform_touched proper called performed key).1
  rw [unwritten key] at touched
  cases touched with
  | left kept => exact kept

theorem Call.Quiet.kept {call : Call} (quiet : call.Quiet) {before after : World}
    {reply : call.Reply} (proper : before.store.Proper)
    (performed : before.perform env call = .done after reply) :
    Kept ⟨env, before, after⟩ := by
  have framed := perform_framed performed
  have passwords : call.OnPasswords = false := by
    cases call <;> first | rfl | exact quiet.elim
  have channels : call.OnChannels = false := by
    cases call <;> first | rfl | exact quiet.elim
  refine ⟨?_, framed.passwords passwords, (framed.channels channels).1⟩
  have treated := perform_treated performed
  dsimp only
  generalize after.store = store at treated ⊢
  cases treated with
  | @asked call reply after isDone =>
    refine (kept_of_unwritten proper ?_ (fun key => ?_) isDone).entries
    · cases call with
      | on key op => cases op <;> trivial
      | _ => trivial
    · cases call with
      | on target op => simp [StoreCall.wrote, KeyOp.wrote_of_looks quiet]
      | blpop target => exact quiet.elim
      | _ => rfl
  | gaveUp isWaiting | received unawaited => exact quiet.elim
  | released | aside apart => exact fun key => .inl rfl

/-! ## What belongs to the connection -/

variable [Platform]

theorem Acl.run_refused {name : String} {authenticated : Bool} {program : Prog (Value × Bool)}
    (found : Acl.run name args authenticated = some program) :
    program.Returns fun replied => replied.1.isError → replied.2 = authenticated := by
  have authenticate (user password : Bytes) :
      (Acl.authenticate user password authenticated).Returns fun replied =>
        replied.1.isError → replied.2 = authenticated := by
    unfold Acl.authenticate
    split
    · exact fun _ => rfl
    · intro accepted failed
      cases accepted
      · rfl
      · cases failed
  unfold Acl.run at found
  split at found <;> cases found
  · exact .map (.of_forall (fun _ _ => rfl) _)
  · split
    · intro wantsNone
      dsimp only
      split
      · exact fun _ => rfl
      · exact authenticate _ _
    · exact authenticate _ _
    · exact fun _ => rfl

omit [Platform] in
theorem Pubsub.run_refused {name : String} {subscriptions : Subscriptions}
    {program : Prog (Value × Subscriptions)}
    (found : Pubsub.run name args subscriptions = some program) :
    program.Returns fun replied => replied.1.isError → replied.2 = subscriptions := by
  have each (what : String) (change : Subscriptions → Bytes → Prog (Nat × Subscriptions))
      (channels : List Bytes) :
      (Pubsub.each what change subscriptions [] channels).Returns fun replied =>
        replied.1.isError → replied.2 = subscriptions :=
    (Pubsub.each_returns what change subscriptions [] channels).mono
      fun replied unfailed failed => by rw [unfailed] at failed; cases failed
  unfold Pubsub.run at found
  split at found
  · cases found
    split
    · exact fun reached _ => rfl
    · exact fun _ => rfl
  · cases found
    split
    · exact fun _ => rfl
    · exact each _ _ _
  · cases found
    split
    · unfold Pubsub.givenUp
      split
      · exact fun _ => rfl
      · exact each _ _ _
    · exact each _ _ _
  · split at found <;> cases found
    exact fun _ => rfl
  · cases found

/-- A command that fails leaves its client as it was. -/
theorem runAgainst_refused (server : Server) (client : Client) (command : Command) :
    (runAgainst server client command).Returns fun replied =>
      replied.1.isError → replied.2 = client := by
  unfold runAgainst Client.kept
  dsimp only
  split
  · rename_i reply transaction ran
    unfold Transactions.run at ran
    split at ran
    · split at ran <;> cases ran
      · exact fun failed => nomatch failed
      · exact fun _ => rfl
    · cases ran
  · split
    · rename_i found
      exact (Pubsub.run_refused found).bind fun replied unchanged failed => by
        dsimp only
        rw [unchanged failed]
    · split
      · exact .map (.of_forall (fun _ _ => rfl) _)
      · split
        · rename_i found
          exact (Acl.run_refused found).bind fun replied unchanged failed => by
            dsimp only
            rw [unchanged failed]
        · split
          · exact .map (.of_forall (fun _ _ => rfl) _)
          · exact fun _ => rfl

/-! ## What is shared -/

variable {steps : List (Step Env World)}

omit [Platform] in
/-- A method of the store that was carried out. -/
theorem perform_store_done {before after : World} {call : StoreCall} {reply : call.Reply}
    (performed : before.perform env (.store call) = .done after reply) :
    ∃ store, before.store.perform env.clock call = some (store, reply) ∧
      after = { before with store } := by
  simp only [World.perform] at performed
  split at performed
  · rename_i store answer isDone
    cases performed
    exact ⟨store, isDone, rfl⟩
  · cases performed

omit [Platform] in
theorem Writing.kept {program : Prog Value} (writing : Writing program) {value : Value}
    (runs : program.Runs machine steps value) (failed : value.isError)
    (proper : ∀ step ∈ steps, step.before.store.Proper) : ∀ step ∈ steps, Kept step := by
  cases writing with
  | refused isError =>
    cases runs
    simp
  | asked key op reply writes called unwritten =>
    cases runs with
    | @call _ _ env before after answer _ _ performed rest =>
      cases rest
      obtain ⟨store, isDone, rfl⟩ := perform_store_done performed
      have isProper : before.store.Proper := proper _ (List.mem_singleton_self _)
      intro step member
      rw [List.mem_singleton.mp member]
      refine kept_of_unwritten isProper ?_ (fun other => ?_) isDone
      · exact called
      · simp [StoreCall.wrote, unwritten answer failed]

omit [Platform] in
theorem blpopProgram_kept {value : Value} (runs : (blpopProgram args).Runs machine steps value)
    (failed : value.isError) (proper : ∀ step ∈ steps, step.before.store.Proper) :
    ∀ step ∈ steps, Kept step := by
  unfold blpopProgram at runs
  split at runs
  · unfold Lists.blpop at runs
    split at runs
    · cases runs
      simp
    · cases runs with
      | @call _ _ env before after answer _ _ performed rest =>
        obtain ⟨store, isDone, rfl⟩ := perform_store_done performed
        rcases answer with _ | element | receiver
        · cases rest
          have isProper : before.store.Proper := proper _ (List.mem_singleton_self _)
          intro step member
          rw [List.mem_singleton.mp member]
          refine kept_of_unwritten isProper ?_ (fun other => ?_) isDone
          · exact True.intro
          · rfl
        · cases rest
          cases failed
        · cases rest with
          | @call _ _ _ _ _ element _ _ _ last =>
            cases last
            cases element <;> cases failed
  · cases runs
    simp

/-- A command that fails has left all that is shared alone. -/
theorem runAgainst_kept (runs : (runAgainst server client command).Runs machine steps replied)
    (failed : replied.1.isError) (proper : ∀ step ∈ steps, step.before.store.Proper) :
    ∀ step ∈ steps, Kept step := by
  cases recorded : recordedAsSent command.uppercased with
  | true =>
    obtain ⟨program, writing, -, isKept⟩ := runAgainst_recorded recorded
    rw [isKept] at runs
    obtain ⟨value, rfl, ran⟩ := Program.Runs.map_inv runs
    exact writing.kept ran failed proper
  | false =>
    by_cases isBlpop : command.uppercased = "BLPOP"
    · rw [runAgainst_blpop isBlpop] at runs
      obtain ⟨value, rfl, ran⟩ := Program.Runs.map_inv runs
      exact blpopProgram_kept ran failed proper
    · rcases runAgainst_tame recorded isBlpop server client with quiet | ⟨-, unfailed⟩
      · intro step member
        obtain ⟨request, reply, isQuiet, performed⟩ := runs.makes quiet step member
        exact isQuiet.kept (proper step member) performed
      · have goesThrough : replied.1.isError = false := runs.returns unfailed
        rw [failed] at goesThrough
        cases goesThrough

/-- Every append goes through, if there is a record to append to at all. -/
def Appends (server : Server) (steps : List (Step Env World)) : Prop :=
  server.recording = false ∨ ∀ step ∈ steps, step.env.append = none

omit [Platform] in
theorem passOn_runs {written : Value}
    (runs : (passOn server written replied).Runs machine steps result) : result = replied := by
  unfold passOn at runs
  split at runs
  · cases runs with
    | call _ rest =>
      cases rest with
      | call _ last =>
        cases last
        rfl
  · cases runs
    rfl

omit [Platform] in
theorem afterwards_runs (runs : (afterwards server command replied).Runs machine steps result)
    (appends : Appends server steps) :
    result = replied ∧ (replied.1.isError → steps = []) := by
  unfold afterwards at runs
  split at runs
  · cases runs
    exact ⟨rfl, fun _ => rfl⟩
  · rename_i unfailed
    refine ⟨?_, fun failed => absurd failed unfailed⟩
    split at runs
    · cases runs
      rfl
    · unfold noteDown at runs
      split at runs
      · rename_i recording
        cases runs with
        | @call _ _ env before after recorded _ _ performed rest =>
          have appended : env.append = none := by
            rcases appends with off | appends
            · rw [recording] at off
              cases off
            · exact appends _ (List.mem_cons_self)
          simp only [machine, World.perform, appended] at performed
          cases performed
          exact passOn_runs rest
      · exact passOn_runs runs

/-- A command that was refused: the client is as it was, and so is all that is shared. -/
theorem dispatch_kept (runs : (dispatch server client command).Runs machine steps replied)
    (failed : replied.1.isError) (appends : Appends server steps)
    (proper : ∀ step ∈ steps, step.before.store.Proper) :
    replied.2 = client ∧ ∀ step ∈ steps, Kept step := by
  obtain ⟨first, rest, middle, rfl, ran, last⟩ := Program.Runs.bind_inv runs
  have laterAppends : Appends server rest :=
    appends.imp id fun appends step member => appends step (by simp [member])
  obtain ⟨rfl, quits⟩ := afterwards_runs last laterAppends
  have noMore := quits failed
  subst noMore
  rw [List.append_nil] at proper ⊢
  exact ⟨ran.returns (runAgainst_refused server client command) failed,
    runAgainst_kept ran failed proper⟩

/-! ## Transactions -/

omit [Platform] in
theorem Transactions.steer_refused {transaction : Transaction}
    {program : Prog (Transactions.Steered × Transaction)}
    (steered : Transactions.steer command transaction = some program) :
    program.Returns fun steered => ∀ reply, steered.1 = .reply reply → reply.isError →
      steered.2 = transaction := by
  unfold Transactions.steer at steered
  split at steered
  · cases steered
    split
    · exact fun _ _ _ => rfl
    · rintro _ ⟨⟩ ⟨⟩
    · exact fun _ _ _ => rfl
  · cases steered
    split
    · intro unchanged reply isReply failed
      cases unchanged <;> cases isReply
      cases failed
    · exact fun _ _ _ => rfl
    · exact fun _ _ _ => rfl
  · cases steered
    split
    · exact fun _ _ _ => rfl
    · exact fun _ _ _ => rfl
    · rintro versions _ ⟨⟩ ⟨⟩
  · cases steered
    split
    · rintro _ ⟨⟩ ⟨⟩
    · exact fun _ _ _ => rfl
    · exact fun _ _ _ => rfl
  · cases steered

theorem execute_unfailed (server : Server) (client : Client) (replies : List Value)
    (queued : List Command) :
    (execute server client replies queued).Returns fun replied =>
      replied.1.isError = false := by
  induction queued generalizing client replies with
  | nil => rfl
  | cons command queued ih =>
    exact (Program.Returns.of_forall (fun _ => True.intro) _).bind fun replied _ => ih _ _

theorem carryOut_kept (runs : (carryOut server client command).Runs machine steps replied)
    (failed : replied.1.isError) (appends : Appends server steps)
    (proper : ∀ step ∈ steps, step.before.store.Proper) :
    replied.2 = client ∧ ∀ step ∈ steps, Kept step := by
  unfold carryOut at runs
  split at runs
  · exact dispatch_kept runs failed appends proper
  · rename_i steered isSteered
    obtain ⟨first, rest, ⟨_ | queue, transaction⟩, rfl, ran, last⟩ := Program.Runs.bind_inv runs
    · cases last
      rw [List.append_nil] at proper ⊢
      have same := ran.returns (Transactions.steer_refused isSteered) _ rfl failed
      simp only at same
      subst same
      refine ⟨rfl, fun step member => ?_⟩
      obtain ⟨request, reply, quiet, performed⟩ :=
        ran.makes (Transactions.steer_quiet isSteered) step member
      exact quiet.kept (proper step member) performed
    · have goesThrough := last.returns (execute_unfailed server _ [] queue)
      rw [failed] at goesThrough
      cases goesThrough

/-- One command of a transaction as it was carried out: the client before it and after
it, its steps and its reply. -/
structure Dispatched where
  command : Command
  before : Client
  steps : List (Step Env World)
  reply : Value
  after : Client

/-- The commands of a queue carried out one after the other, each for the client as the
one before left it. -/
inductive CarriedOut (server : Server) : Client → List Dispatched → Client → Prop where
  | nil (client : Client) : CarriedOut server client [] client
  | cons {command : Command} {before middle last : Client} {steps : List (Step Env World)}
      {reply : Value} {each : List Dispatched}
      (ran : (dispatch server before command).Runs machine steps (reply, middle))
      (rest : CarriedOut server middle each last) :
      CarriedOut server before (⟨command, before, steps, reply, middle⟩ :: each) last

theorem CarriedOut.dispatched {last : Client} {each : List Dispatched}
    (carriedOut : CarriedOut server client each last) : ∀ one ∈ each,
      (dispatch server one.before one.command).Runs machine one.steps (one.reply, one.after) := by
  induction carriedOut with
  | nil client => simp
  | cons ran rest ih => exact List.forall_mem_cons.mpr ⟨ran, ih⟩

/-- What a transaction comes to is what its commands come to, one after the other. -/
theorem execute_carriedOut {replies : List Value} {queued : List Command}
    (runs : (execute server client replies queued).Runs machine steps result) :
    ∃ each, CarriedOut server client each result.2 ∧ each.map Dispatched.command = queued ∧
      result.1 = .array (replies ++ each.map Dispatched.reply) ∧
      steps = each.flatMap Dispatched.steps := by
  induction queued generalizing client replies steps with
  | nil =>
    cases runs
    exact ⟨[], .nil client, rfl, by simp, rfl⟩
  | cons command queued ih =>
    obtain ⟨first, rest, middle, rfl, ran, last⟩ := Program.Runs.bind_inv runs
    obtain ⟨each, carriedOut, commands, isResult, rfl⟩ := ih last
    exact ⟨_ :: each, .cons ran carriedOut, by simp [commands], by simp [isResult], by simp⟩

/-- A command answered with an error has changed no key, password or channel, nor
anything of its connection, whatever others did between its steps; and so has each
command of a transaction that is answered with one. -/
theorem refused_keeps_everything (server : Server) (client : Client)
    (steps : List (Step Env World)) (appends : Appends server steps)
    (proper : ∀ step ∈ steps, step.before.store.Proper) :
    (∀ found reply last, (run server client found).Runs machine steps (.reply reply, last) →
      reply.isError → last = client ∧ ∀ step ∈ steps, Kept step) ∧
    (∀ queued replies last,
      (execute server client [] queued).Runs machine steps (.array replies, last) →
      ∃ each : List Dispatched, each.map Dispatched.command = queued ∧
        each.map Dispatched.reply = replies ∧ steps = each.flatMap Dispatched.steps ∧
        ∀ one ∈ each, (dispatch server one.before one.command).Runs machine one.steps
            (one.reply, one.after) ∧
          (one.reply.isError → one.after = one.before ∧ ∀ step ∈ one.steps, Kept step)) := by
  constructor
  · intro found reply last runs failed
    unfold run at runs
    split at runs
    · cases runs
      simp
    · rename_i command _
      unfold runCommand at runs
      split at runs
      · cases runs
        simp
      · split at runs
        · cases runs
          simp
        · split at runs
          · cases runs
            cases failed
          · obtain ⟨replied, isAnswer, ran⟩ := Program.Runs.map_inv runs
            simp only [answer, Prod.mk.injEq] at isAnswer
            obtain ⟨isReply, rfl⟩ := isAnswer
            split at isReply
            · cases isReply
            · cases isReply
              exact carryOut_kept ran failed appends proper
  · intro queued replies last runs
    obtain ⟨each, carriedOut, commands, isResult, isSteps⟩ := execute_carriedOut runs
    have dispatched := carriedOut.dispatched
    refine ⟨each, commands, ?_, isSteps, fun one member => ⟨dispatched one member, ?_⟩⟩
    · simpa using isResult.symm
    · intro failed
      have inside : ∀ step ∈ one.steps, step ∈ steps := fun step isStep => by
        rw [isSteps]
        exact List.mem_flatMap.mpr ⟨one, member, isStep⟩
      exact dispatch_kept (dispatched one member) failed
        (appends.imp id fun appends step isStep => appends step (inside step isStep))
        fun step isStep => proper step (inside step isStep)

omit [Platform]

/-- A world whose one key holds a string. -/
def worldWithString : World :=
  { store := State.run [.call ⟨0, 0⟩ (.on (utf8 "k") (.set (utf8 "v") none))] {} }

/-- What pushing onto the string leaves. -/
def afterPush : World :=
  { worldWithString with
    store := (worldWithString.store.push 0 (utf8 "k") [utf8 "a"] .left).1 }

theorem refused_keeps_everything_lpush :
    (@run .ascii {} {} (typed ["LPUSH", "k", "a"])).Runs machine
        [⟨{}, worldWithString, afterPush⟩] (.reply wrongType, {}) ∧
      Kept ⟨{}, worldWithString, afterPush⟩ := by
  have proper : worldWithString.store.Proper :=
    State.proper_empty.run (by simp [StoreCall.Proper, KeyOp.Proper])
  have runs : (@run .ascii {} {} (typed ["LPUSH", "k", "a"])).Runs machine
      [⟨{}, worldWithString, afterPush⟩] (.reply wrongType, {}) :=
    @Program.Runs.call calls World Env _ machine
      (.store (.on (utf8 "k") (.push [utf8 "a"] .left))) _ {} worldWithString _
      (.error .wrongType) [] _ rfl (.ret _)
  have kept := (@refused_keeps_everything .ascii {} {} [⟨{}, worldWithString, afterPush⟩]
    (.inr (by simp)) (by simpa using proper)).1 _ _ _ runs rfl
  exact ⟨runs, kept.2 _ (List.mem_singleton_self _)⟩

end RedisServer
