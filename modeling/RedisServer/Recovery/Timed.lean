import RedisServer.Lib.Run
import RedisServer.Recovery.Replay
import RedisServer.Server.Following

/-!
# Commands at times of their own

Commands asked one after the other, each at what the clocks read just then, and the same
commands done again from the log or on a replica, where the clocks read something else.
A command of one method is one call on the store and, if it is to be recorded, what comes
after it; what the call comes to decides the rest.
-/

namespace RedisServer

/-! ## A course of commands -/

/-- A command that came in: from whom, and what the clocks read when it is carried out. -/
structure Asked where
  client : Client
  clock : Clock
  found : Value

/-- What a server has come to by the commands asked of it, and what each of them was answered,
those apart whose handling panicked. -/
structure Course where
  world : World
  answers : List (Asked × Answer) := []

/-- The next command is carried out, and its append goes through. -/
def Course.step [Platform] (server : Server) (course : Course) (asked : Asked) : Option Course :=
  match (run server asked.client asked.found).exec machine (fun _ => { clock := asked.clock }) 0
      course.world with
  | .stuck => none
  | .panicked (_, world) => some { course with world }
  | .done (_, world) (answer, _) => some ⟨world, course.answers ++ [(asked, answer)]⟩

/-! ## One command -/

/-- What a write leaves in the log and with the replicas. -/
structure Noted (server : Server) (written : Value) (before after : World) : Prop where
  store : after.store = before.store
  log : after.log = if server.recording then before.log ++ written.encode else before.log
  replicas : server.config.replicaof = none → after.replicas =
    before.following.map fun replica =>
      { replica with changes := replica.changes ++ [written.encode] }

/-- The first replica is this one, and has been sent this. -/
def World.Sends (follower : Nat) (sent : List Bytes) (world : World) : Prop :=
  ∃ replica others, world.replicas = replica :: others ∧ replica.connection = follower ∧
    replica.closed = false ∧ replica.changes = sent

section

variable {server : Server} {client : Client} {command : Command} {supply : Nat → Env}

theorem World.Sends.noted {follower : Nat} {sent : List Bytes} {before after : World}
    {written : Value} (sends : before.Sends follower sent)
    (noted : Noted server written before after) (master : server.config.replicaof = none) :
    after.Sends follower (sent ++ [written.encode]) := by
  obtain ⟨replica, others, isFirst, isFollower, isOpen, changes⟩ := sends
  have following : before.following =
      replica :: others.filter fun replica => !replica.closed := by
    rw [World.following, isFirst, List.filter_cons_of_pos (by simp [isOpen])]
  have told := noted.replicas master
  rw [following, List.map_cons] at told
  exact ⟨_, _, told, isFollower, isOpen, congrArg (· ++ [written.encode]) changes⟩

theorem passOn_exec (written : Value) (replied : Value × Client) (count : Nat) (world : World) :
    ∃ last, (passOn server written replied).exec machine supply count world = .done last replied ∧
      last.2.store = world.store ∧ last.2.log = world.log ∧
      (server.config.replicaof = none → last.2.replicas =
        world.following.map fun replica =>
          { replica with changes := replica.changes ++ [written.encode] }) := by
  unfold passOn
  cases following : server.config.replicaof with
  | some master => exact ⟨_, rfl, rfl, rfl, nofun⟩
  | none =>
    by_cases alone : world.following.isEmpty
    · have performed : machine.perform (supply count) world (.send written) =
          .done { world with replicas := world.following } 0 := by
        simp only [machine, World.perform, alone, if_true]
      rw [Option.isNone_none, if_pos rfl, Program.exec_call_done performed]
      exact ⟨_, rfl, rfl, rfl, fun _ => by simp [List.isEmpty_iff.mp alone]⟩
    · have performed : machine.perform (supply count) world (.send written) =
          .done { world with
            replicas := world.following.map fun replica =>
              { replica with changes := replica.changes ++ [written.encode] } }
            written.encode.length := by
        simp only [machine, World.perform, alone, Bool.false_eq_true, if_false]
      rw [Option.isNone_none, if_pos rfl, Program.exec_call_done performed]
      exact ⟨_, rfl, rfl, rfl, fun _ => rfl⟩

theorem noteDown_exec (appends : ∀ n, (supply n).append = none) (written : Value)
    (replied : Value × Client) (count : Nat) (world : World) :
    ∃ last, (noteDown server written replied).exec machine supply count world =
        .done last replied ∧ Noted server written world last.2 := by
  unfold noteDown
  cases recording : server.recording with
  | false =>
    obtain ⟨last, ends, store, log, replicas⟩ :=
      @passOn_exec server supply written replied count world
    exact ⟨last, ends, store, by simp [log, recording], replicas⟩
  | true =>
    have performed : machine.perform (supply count) world (.record written) =
        .done { world with log := world.log ++ written.encode } true := by
      simp only [machine, World.perform, appends]
    obtain ⟨last, ends, store, log, replicas⟩ := @passOn_exec server supply written replied
      (count + 1) { world with log := world.log ++ written.encode }
    rw [if_pos rfl, Program.exec_call_done performed]
    exact ⟨last, ends, store, by simp [log, recording], replicas⟩

/-- What becomes of a command that asks one method of one key: it panics with the method, or is
answered by what the method came to and noted down if there is anything to note. -/
inductive Asks (server : Server) (client : Client) (command : Command) {op : KeyOp}
    (reply : op.Reply → Value) (world : World) :
    Option (State × op.Reply) → Outcome (Nat × World) (Value × Client) → Prop where
  | panicked (count : Nat) :
      Asks server client command reply world none (.panicked (count, world))
  | unwritten {after : State} {answered : op.Reply} (count : Nat)
      (nothing : (reply answered).isError ∨ writtenDown command (reply answered) = none) :
      Asks server client command reply world (some (after, answered))
        (.done (count, { world with store := after }) (reply answered, client))
  | noted {after : State} {answered : op.Reply} {written : Value} {last : Nat × World}
      (noError : ¬ (reply answered).isError)
      (isWritten : writtenDown command (reply answered) = some written)
      (noted : Noted server written { world with store := after } last.2) :
      Asks server client command reply world (some (after, answered))
        (.done last (reply answered, client))

variable [Platform]

theorem dispatch_asks {key : Bytes} {op : KeyOp} {reply : op.Reply → Value}
    (runs : runAgainst server client command = client.kept (ask (.on key op) reply))
    (appends : ∀ n, (supply n).append = none) (count : Nat) (world : World) :
    Asks server client command reply world
      (world.store.performOn (supply count).clock key op)
      ((dispatch server client command).exec machine supply count world) := by
  unfold dispatch
  rw [Program.bind_eq, runs, Client.kept, Program.exec_bind, Program.exec_map, ask,
    Program.exec_call]
  cases performed : world.store.performOn (supply count).clock key op with
  | none =>
    simp only [machine, World.perform, State.perform, performed]
    exact .panicked (count + 1)
  | some result =>
    obtain ⟨after, answered⟩ := result
    simp only [machine, World.perform, State.perform, performed, Program.exec_ret, Outcome.map]
    unfold afterwards
    split
    · rename_i isError
      exact .unwritten (count + 1) (.inl isError)
    · rename_i noError
      split
      · rename_i nothing
        exact .unwritten (count + 1) (.inr nothing)
      · rename_i written isWritten
        obtain ⟨last, ends, noted⟩ := @noteDown_exec server supply appends written
          (reply answered, client) (count + 1) { world with store := after }
        rw [machine] at ends
        rw [ends]
        exact .noted noError isWritten noted

/-- A command refused outright is answered at once. -/
theorem dispatch_refused {value : Value} (isError : value.isError)
    (runs : runAgainst server client command = client.kept (.ret value)) :
    dispatch server client command = .ret (value, client) := by
  rw [dispatch, runs]
  exact afterwards_unwritten (.inr isError)

/-- The next command is refused outright. -/
theorem Course.step_refused {course : Course} {asked : Asked} (trusted : asked.client.Trusted)
    (parsed : Command.parse asked.found = .ok command)
    (unsteered : Transactions.steersATransaction command.uppercased = false ∧
      Transactions.steer command asked.client.transaction = none)
    (notPsync : command.uppercased ≠ "PSYNC") {value : Value} (isError : value.isError)
    (runs : runAgainst server asked.client command = asked.client.kept (.ret value)) :
    course.step server asked =
      some ⟨course.world, course.answers ++ [(asked, .reply value)]⟩ := by
  have isRun : run server asked.client asked.found = .ret (.reply value, asked.client) := by
    simp only [run, parsed, runCommand_unsteered trusted unsteered,
      dispatch_refused isError runs]
    simp [answer, notPsync]
  rw [Course.step, isRun]
  rfl

/-- The next command asks one method of one key. -/
theorem Course.step_asks {course : Course} {asked : Asked} (trusted : asked.client.Trusted)
    (parsed : Command.parse asked.found = .ok command)
    (unsteered : Transactions.steersATransaction command.uppercased = false ∧
      Transactions.steer command asked.client.transaction = none)
    (notPsync : command.uppercased ≠ "PSYNC")
    {key : Bytes} {op : KeyOp} {reply : op.Reply → Value}
    (runs : runAgainst server asked.client command = asked.client.kept (ask (.on key op) reply)) :
    match course.world.store.performOn asked.clock key op with
    | none => course.step server asked = some course
    | some (after, answered) => ∃ world, course.step server asked =
          some ⟨world, course.answers ++ [(asked, .reply (reply answered))]⟩ ∧
        ((reply answered).isError ∨ writtenDown command (reply answered) = none →
          world = { course.world with store := after }) ∧
        ∀ written, ¬ (reply answered).isError →
          writtenDown command (reply answered) = some written →
          Noted server written { course.world with store := after } world := by
  have asks := @dispatch_asks server asked.client command (fun _ => { clock := asked.clock }) _ key
    op reply runs (fun _ => rfl) 0 course.world
  have isRun : run server asked.client asked.found =
      answer command <$> dispatch server asked.client command := by
    simp only [run, parsed, runCommand_unsteered trusted unsteered]
  have said (value : Value) : (answer command (value, asked.client)).1 = .reply value := by
    simp [answer, notPsync]
  rw [Course.step, isRun, Program.exec_map]
  dsimp only at asks
  generalize course.world.store.performOn asked.clock key op = performed at asks
  generalize (dispatch server asked.client command).exec machine (fun _ => { clock := asked.clock })
    0 course.world = outcome at asks
  cases asks with
  | panicked count => exact rfl
  | unwritten count nothing =>
    refine ⟨_, by simp only [Outcome.map, ← said], fun _ => rfl, ?_⟩
    intro written noError isWritten
    rcases nothing with isError | notWritten
    · exact absurd isError noError
    · rw [notWritten] at isWritten
      cases isWritten
  | noted noError isWritten noted =>
    refine ⟨_, by simp only [Outcome.map, ← said]; rfl, fun nothing => ?_, ?_⟩
    · rcases nothing with isError | notWritten
      · exact absurd isError noError
      · rw [notWritten] at isWritten
        cases isWritten
    · intro other _ isOther
      rw [isWritten] at isOther
      cases isOther
      exact noted

/-- Whether or not it is recorded or passed on, the store is left as the method leaves it. -/
theorem run_stores (trusted : client.Trusted) {found : Value}
    (parsed : Command.parse found = .ok command)
    (unsteered : Transactions.steersATransaction command.uppercased = false ∧
      Transactions.steer command client.transaction = none)
    {key : Bytes} {op : KeyOp} {reply : op.Reply → Value}
    (runs : runAgainst server client command = client.kept (ask (.on key op) reply))
    (count : Nat) (world : World) :
    match world.store.performOn (supply count).clock key op with
    | none => ∃ last, (run server client found).exec machine supply count world = .panicked last
    | some (after, _) => ∃ last answer, (run server client found).exec machine supply count world =
        .done last (answer, client) ∧ last.2.store = after := by
  simp only [run, parsed]
  rw [runCommand_unsteered trusted unsteered, dispatch, Program.bind_eq, runs, Client.kept,
    Program.exec_map, Program.exec_bind, Program.exec_map, ask, Program.exec_call]
  cases performed : world.store.performOn (supply count).clock key op with
  | none =>
    simp only [machine, World.perform, State.perform, performed, Outcome.map]
    exact ⟨_, rfl⟩
  | some result =>
    obtain ⟨after, answered⟩ := result
    obtain ⟨used, later, result, ends, sameClient, sameStore⟩ :=
      (@afterwards_store Terms.total server command { world with store := after }
        (reply answered, client)).exec_total supply (count + 1)
    simp only [machine] at ends
    simp only [machine, World.perform, State.perform, performed, Program.exec_ret, Outcome.map,
      ends]
    exact ⟨_, _, by rw [answer, sameClient], sameStore⟩

end

/-! ## Doing the commands again -/

section

variable [Platform] {α : Type} {holds : α → State → Prop} {act : Clock → List Bytes → α → Option α}
  {server : Server} {client : Client}

/-- Recorded words do to what the store holds what this says, at the time they are carried out.
`none` is a panic. -/
def Does (holds : α → State → Prop) (act : Clock → List Bytes → α → Option α) (server : Server)
    (client : Client) (words : List Bytes) : Prop :=
  ∀ (supply : Nat → Env) (count : Nat) (world : World) (held : α), holds held world.store →
    match act (supply count).clock words held with
    | none => carryOutOn server supply ((count, world), client) (asCommand words) = none
    | some next => ∃ last, carryOutOn server supply ((count, world), client) (asCommand words) =
        some (last, client) ∧ holds next last.2.store

/-- Commands are carried out one after the other, each at what the clock then reads. -/
theorem carryOutOn_does {records : List (List Bytes)}
    (does : ∀ words ∈ records, Does holds act server client words) (supply : Nat → Env)
    (count : Nat) {world : World} {held : α} (isHeld : holds held world.store) :
    ∃ clocks : List Clock, clocks.length = records.length ∧
      (∀ clock ∈ clocks, ∃ n, clock = (supply n).clock) ∧
      match (clocks.zip records).foldlM (fun held one => act one.1 one.2 held) held with
      | none => (records.map asCommand).foldlM (carryOutOn server supply)
          ((count, world), client) = none
      | some next => ∃ last, (records.map asCommand).foldlM (carryOutOn server supply)
          ((count, world), client) = some (last, client) ∧ holds next last.2.store := by
  induction records generalizing count world held with
  | nil => exact ⟨[], rfl, by simp, (count, world), rfl, isHeld⟩
  | cons words records ih =>
    have first := does words (by simp) supply count world held isHeld
    rw [List.map_cons]
    cases acted : act (supply count).clock words held with
    | none =>
      rw [acted] at first
      refine ⟨(supply count).clock :: List.replicate records.length (supply count).clock,
        by simp, ?_, ?_⟩
      · intro clock member
        rw [← List.replicate_succ] at member
        exact ⟨count, List.eq_of_mem_replicate member⟩
      · rw [List.zip_cons_cons, List.foldlM_cons, List.foldlM_cons, acted, first]
        rfl
    | some next =>
      rw [acted] at first
      obtain ⟨last, ends, stillHeld⟩ := first
      obtain ⟨clocks, sameLength, read, rest⟩ := ih
        (fun other member => does other (by simp [member])) last.1 stillHeld
      refine ⟨(supply count).clock :: clocks, by simp [sameLength], ?_, ?_⟩
      · exact List.forall_mem_cons.mpr ⟨⟨count, rfl⟩, read⟩
      · rw [List.zip_cons_cons, List.foldlM_cons, List.foldlM_cons, acted, ends]
        exact rest

/-- The log is done again as a replica would do it. -/
theorem replay_exec (supply : Nat → Env) (commands : List Value) (count replayed : Nat)
    (world : World) (client : Client) :
    match commands.foldlM (carryOutOn server supply) ((count, world), client) with
    | none => ∀ last done,
        (replay server client replayed commands).exec machine supply count world ≠ .done last done
    | some last => ∃ done, (replay server client replayed commands).exec machine supply count
        world = .done last.1 done := by
  induction commands generalizing count replayed world client with
  | nil => exact ⟨replayed, rfl⟩
  | cons command commands ih =>
    rw [List.foldlM_cons, replay, Program.bind_eq, Program.exec_bind, carryOutOn]
    cases (run server client command).exec machine supply count world with
    | stuck => simp
    | panicked last => simp
    | done last replied => exact ih last.1 _ last.2 replied.2

end

/-- A replica that is not asked how far it has got carries everything out. -/
theorem foldlM_takeIn {σ : Type} {carryOut : σ → Value → Option σ} {commands : List Value}
    (told : ∀ command ∈ commands, asksHowFar command = false) (state : σ) :
    commands.foldlM (takeIn carryOut) state = commands.foldlM carryOut state := by
  induction commands generalizing state with
  | nil => rfl
  | cons command commands ih =>
    have first : takeIn carryOut state command = carryOut state command := by
      rw [takeIn, told command (by simp), if_neg Bool.false_ne_true]
    rw [List.foldlM_cons, List.foldlM_cons, first]
    have rest := ih fun other member => told other (by simp [member])
    exact congrArg _ (funext rest)

end RedisServer
