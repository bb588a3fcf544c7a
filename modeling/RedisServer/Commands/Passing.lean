import RedisServer.Lib.Protocol
import RedisServer.Commands.Shape

/-!
# What a command has to do with the replicas

A command is passed on and counted in two calls, one right after the other, and `WAIT`
counts the replicas that are as far along as the history was when it last looked.
Both hold of every command a client may send, in a transaction or out of it, and both
are protocols: what is shown once for the parts a command is made of holds for the
whole of it.
-/

namespace RedisServer

/-- A protocol that recording a command and passing it on keep to: both start at rest and
come back to it. -/
structure Carries {Phase : Type} (protocol : Protocol calls Phase)
    (rest : Phase → Prop) : Prop where
  record : ∀ words, protocol.Rests rest (.record (asCommand words))
  passes : ∀ words phase, rest phase → protocol.allows phase (.send (asCommand words)) ∧
    ∀ bytes,
      protocol.allows (protocol.next phase (.send (asCommand words)) bytes) (.advance bytes) ∧
      rest (protocol.next (protocol.next phase (.send (asCommand words)) bytes) (.advance bytes) ())

/-- A protocol what is dispatched keeps to if its parts do. -/
structure Serves {Phase : Type} (protocol : Protocol calls Phase)
    (rest : Phase → Prop) : Prop extends Carries protocol rest where
  apart : ∀ call, call.Apart → protocol.Rests rest call
  waits : ∀ server wanted timeout phase, rest phase →
    (Replication.wait server wanted timeout).Keeps protocol (fun phase _ => rest phase) phase

/-- A protocol all commands keep to if their parts do, those that steer a transaction
included. -/
structure Suits {Phase : Type} (protocol : Protocol calls Phase)
    (rest : Phase → Prop) : Prop extends Serves protocol rest where
  watches : ∀ call, call.Watches → protocol.Rests rest call

theorem exists_words_of_writtenDown {command : Command} {reply written : Value}
    (isWritten : writtenDown command reply = some written) :
    ∃ words, written = asCommand words := by
  unfold writtenDown at isWritten
  split at isWritten
  · cases isWritten
    exact ⟨_, rfl⟩
  · split at isWritten
    · split at isWritten <;> cases isWritten
      exact ⟨_, rfl⟩
    · cases isWritten

/-- The program `WAIT` comes to. -/
def waitProgram (server : Server) (args : List Bytes) : Prog Value :=
  match args with
  | [replicas, timeout] =>
    match Replication.number replicas, Replication.number timeout with
    | some wanted, some timeout =>
      if timeout < 0 then .ret Replication.negativeTimeout
      else (fun caughtUp : Nat => .integer caughtUp) <$>
        Replication.wait server wanted timeout.toNat
    | _, _ => .ret notAnInteger
  | _ => .ret (wrongArity "wait")

theorem waitProgram_waits (server : Server) (args : List Bytes) :
    (waitProgram server args).Makes Call.Waits := by
  unfold waitProgram
  split
  · split
    · split
      · exact True.intro
      · exact (Replication.wait_waits _ _ _).map _
    · exact True.intro
  · exact True.intro

theorem runAgainst_wait [Platform] {command : Command} (isWait : command.uppercased = "WAIT")
    (server : Server) (client : Client) :
    runAgainst server client command = client.kept (waitProgram server command.args) := by
  obtain ⟨uppercased, name, args⟩ := command
  simp only at isWait
  subst isWait
  rfl

namespace Carries

variable {Phase : Type} {protocol : Protocol calls Phase} {rest : Phase → Prop}

theorem passOn (carries : Carries protocol rest) {phase : Phase} (resting : rest phase)
    (server : Server) (words : List Bytes) (replied : Value × Client) :
    (passOn server (asCommand words) replied).Keeps protocol (fun phase _ => rest phase) phase := by
  unfold RedisServer.passOn
  split
  · obtain ⟨allows, passes⟩ := carries.passes words phase resting
    exact ⟨allows, fun bytes => ⟨(passes bytes).1, fun _ => (passes bytes).2⟩⟩
  · exact resting

theorem afterwards (carries : Carries protocol rest) {phase : Phase} (resting : rest phase)
    (server : Server) (command : Command) (replied : Value × Client) :
    (afterwards server command replied).Keeps protocol (fun phase _ => rest phase) phase := by
  unfold RedisServer.afterwards
  split
  · exact resting
  · split
    · exact resting
    · rename_i written isWritten
      obtain ⟨words, rfl⟩ := exists_words_of_writtenDown isWritten
      unfold noteDown
      split
      · obtain ⟨allows, still⟩ := carries.record words phase resting
        refine ⟨allows, fun recorded => ?_⟩
        dsimp only
        split
        · exact carries.passOn (still recorded) server words replied
        · exact still recorded
      · exact carries.passOn resting server words replied

variable [Platform] (carries : Carries protocol rest) {server : Server}
  (runs : ∀ client command phase, rest phase →
    (runAgainst server client command).Keeps protocol (fun phase _ => rest phase) phase)

include carries runs

theorem dispatch {phase : Phase} (resting : rest phase) (client : Client) (command : Command) :
    (dispatch server client command).Keeps protocol (fun phase _ => rest phase) phase :=
  (runs client command phase resting).bind fun _ replied resting =>
    carries.afterwards resting server command replied

theorem execute {phase : Phase} (resting : rest phase) (client : Client) (replies : List Value)
    (queued : List Command) :
    (execute server client replies queued).Keeps protocol (fun phase _ => rest phase) phase := by
  induction queued generalizing client replies phase with
  | nil => exact resting
  | cons command queued ih =>
    exact (carries.dispatch runs resting client command).bind fun _ _ resting =>
      ih resting _ _

/-- Every command keeps to a protocol its parts keep to. -/
theorem run (watches : ∀ call, call.Watches → protocol.Rests rest call) {phase : Phase}
    (resting : rest phase) (client : Client) (asked : Value) :
    (run server client asked).Keeps protocol (fun phase _ => rest phase) phase := by
  unfold RedisServer.run
  split
  · exact resting
  · unfold runCommand
    split
    · exact resting
    · split
      · exact resting
      · split
        · exact resting
        · refine Program.Keeps.map ?_
          unfold carryOut
          split
          · exact carries.dispatch runs resting client _
          · rename_i isSteered
            refine (Program.Keeps.of_makes watches
              (Transactions.steer_watches isSteered) resting).bind fun _ steered resting => ?_
            obtain ⟨_ | queued, transaction⟩ := steered
            · exact resting
            · exact carries.execute runs resting _ [] queued

end Carries

namespace Serves

variable [Platform] {Phase : Type} {protocol : Protocol calls Phase} {rest : Phase → Prop}

theorem runAgainst (serves : Serves protocol rest) (server : Server) (client : Client)
    (command : Command) (phase : Phase) (resting : rest phase) :
    (runAgainst server client command).Keeps protocol (fun phase _ => rest phase) phase := by
  by_cases isWait : command.uppercased = "WAIT"
  · rw [runAgainst_wait isWait]
    refine Program.Keeps.map ?_
    unfold waitProgram
    split
    · split
      · split
        · exact resting
        · exact (serves.waits server _ _ phase resting).map
      · exact resting
    · exact resting
  · exact Program.Keeps.of_makes serves.apart (runAgainst_apart isWait server client) resting

theorem dispatch (serves : Serves protocol rest) {phase : Phase} (resting : rest phase)
    (server : Server) (client : Client) (command : Command) :
    (dispatch server client command).Keeps protocol (fun phase _ => rest phase) phase :=
  serves.toCarries.dispatch (serves.runAgainst server) resting client command

theorem execute (serves : Serves protocol rest) {phase : Phase} (resting : rest phase)
    (server : Server) (client : Client) (replies : List Value) (queued : List Command) :
    (execute server client replies queued).Keeps protocol (fun phase _ => rest phase) phase :=
  serves.toCarries.execute (serves.runAgainst server) resting client replies queued

end Serves

theorem Suits.run [Platform] {Phase : Type} {protocol : Protocol calls Phase}
    {rest : Phase → Prop} (suits : Suits protocol rest) {phase : Phase} (resting : rest phase)
    (server : Server) (client : Client) (asked : Value) :
    (run server client asked).Keeps protocol (fun phase _ => rest phase) phase :=
  suits.toCarries.run (suits.runAgainst server) suits.watches resting client asked

/-! ## Waiting -/

/-- The calls of a `WAIT` between one count and the next. -/
def Call.Idles : Call → Prop
  | .now | .stirrings | .stirred _ _ | .never | .overflow => True
  | _ => False

section

variable {Phase : Type} {protocol : Protocol calls Phase} {counts : Nat → Phase → Prop}
  {ends : Phase → Nat → Prop} {target : Nat}

/-- What the loop of a `WAIT` asks of a protocol it keeps to. -/
structure Tallies (protocol : Protocol calls Phase) (counts : Phase → Prop)
    (ends : Phase → Nat → Prop) (target : Nat) : Prop where
  idles : ∀ call, call.Idles → protocol.Rests counts call
  counted : ∀ phase, counts phase → protocol.allows phase (.caughtUpTo target) ∧
    ∀ caughtUp, counts (protocol.next phase (.caughtUpTo target) caughtUp) ∧
      ends (protocol.next phase (.caughtUpTo target) caughtUp) caughtUp

theorem Tallies.waitLoop (tallies : Tallies protocol (counts target) ends target) (wanted : Int)
    (mayTimeOut : Bool) (rounds : Nat) {phase : Phase} (counting : counts target phase) :
    (Replication.waitLoop target wanted mayTimeOut rounds).Keeps protocol ends phase := by
  induction rounds generalizing phase with
  | zero => exact ⟨(tallies.idles .never True.intro phase counting).1, nofun⟩
  | succ rounds ih =>
    obtain ⟨mayListen, listens⟩ := tallies.idles .stirrings True.intro phase counting
    refine ⟨mayListen, fun since => ?_⟩
    obtain ⟨mayCount, counted⟩ := tallies.counted _ (listens since)
    refine ⟨mayCount, fun caughtUp => ?_⟩
    dsimp only
    split
    · exact (counted caughtUp).2
    · obtain ⟨mayWait, waits⟩ :=
        tallies.idles (.stirred since mayTimeOut) True.intro _ (counted caughtUp).1
      refine ⟨mayWait, fun stirred => ?_⟩
      cases stirred with
      | false =>
        obtain ⟨mayCount, counted⟩ := tallies.counted _ (waits false)
        exact ⟨mayCount, fun caughtUp => (counted caughtUp).2⟩
      | true => exact ih (waits true)

/-- A `WAIT` keeps to a protocol that its loop keeps to and that lets it get there. -/
theorem Tallies.wait (tallies : ∀ target, Tallies protocol (counts target) ends target)
    {phase : Phase} (looks : protocol.allows phase .offset)
    (nothing : protocol.allows (protocol.next phase .offset (0 : Nat)) .count ∧ ∀ count : Nat,
      ends (protocol.next (protocol.next phase .offset (0 : Nat)) .count count) count)
    (asks : ∀ target : Nat, let looked := protocol.next phase .offset target
      protocol.allows looked (.send (asCommand howFar)) ∧ ∀ bytes : Nat,
        let asked := protocol.next looked (.send (asCommand howFar)) bytes
        protocol.allows asked (.advance bytes) ∧
          counts target (protocol.next asked (.advance bytes) ()))
    (server : Server) (wanted : Int) (timeout : Nat) :
    (Replication.wait server wanted timeout).Keeps protocol ends phase := by
  refine ⟨looks, fun target => ?_⟩
  dsimp only
  split
  · rename_i isNone
    subst isNone
    exact nothing
  · obtain ⟨maySend, sends⟩ := asks target
    refine ⟨maySend, fun asked => ⟨(sends asked).1, fun _ => ?_⟩⟩
    dsimp only
    split
    · exact (tallies target).waitLoop _ _ _ (sends asked).2
    · obtain ⟨mayLook, looks⟩ := (tallies target).idles .now True.intro _ (sends asked).2
      rw [Program.keeps_call]
      refine ⟨mayLook, fun now => ?_⟩
      generalize instantAdd now _ = deadline
      cases deadline with
      | none => exact ⟨((tallies target).idles .overflow True.intro _ (looks now)).1, nofun⟩
      | some deadline => exact (tallies target).waitLoop _ _ _ (looks now)

end

/-! ## Passing on -/

/-- A command passed on is counted before anything else is done, and with as many bytes
as it took up.  The phase is the number of bytes not counted yet. -/
def passing : Protocol calls (Option Nat) where
  allows
    | some bytes, call => call = .advance bytes
    | none, .advance _ => False
    | none, .send command => command.encode ≠ []
    | none, _ => True
  next _ call reply :=
    match call, reply with
    | .send _, bytes => some bytes
    | _, _ => none

theorem encode_asCommand_ne_nil (words : List Bytes) : (asCommand words).encode ≠ [] := by
  simp [asCommand, Value.encode, header]

theorem passing_suits : Suits passing fun phase => phase = none where
  apart call apart phase resting := by
    subst resting
    cases call <;> first | exact apart.elim | exact ⟨True.intro, fun _ => rfl⟩
  watches call watches phase resting := by
    subst resting
    cases call <;> first | exact watches.elim | exact ⟨True.intro, fun _ => rfl⟩
  record words phase resting := by
    subst resting
    exact ⟨True.intro, fun _ => rfl⟩
  passes words phase resting := by
    subst resting
    exact ⟨encode_asCommand_ne_nil words, fun bytes => ⟨rfl, rfl⟩⟩
  waits server wanted timeout phase resting := by
    subst resting
    have tallies (target : Nat) : Tallies passing (fun phase => phase = none)
        (fun phase _ => phase = none) target := by
      refine ⟨fun call idles phase resting => ?_, fun phase resting => ?_⟩ <;> subst resting
      · cases call <;> first | exact idles.elim | exact ⟨True.intro, fun _ => rfl⟩
      · exact ⟨True.intro, fun _ => ⟨rfl, rfl⟩⟩
    refine Tallies.wait tallies ?_ ?_ ?_ server wanted timeout
    · exact True.intro
    · exact ⟨True.intro, fun _ => rfl⟩
    · exact fun _ => ⟨encode_asCommand_ne_nil _, fun _ => ⟨rfl, rfl⟩⟩

/-! ## Counting -/

/-- Replicas are counted by how far the history was when last looked at, and not before
it has been.  The phase is how far that was. -/
def counting : Protocol calls (Option Nat) where
  allows phase
    | .caughtUpTo offset => phase = some offset
    | .count => phase = some 0
    | _ => True
  next phase call reply :=
    match call, reply with
    | .offset, offset => some offset
    | _, _ => phase

theorem counting_suits : Suits counting fun _ => True where
  apart call apart phase _ := by
    cases call <;> first | exact apart.elim | exact ⟨True.intro, fun _ => True.intro⟩
  watches call watches phase _ := by
    cases call <;> first | exact watches.elim | exact ⟨True.intro, fun _ => True.intro⟩
  record words phase _ := ⟨True.intro, fun _ => True.intro⟩
  passes words phase _ := ⟨True.intro, fun bytes => ⟨True.intro, True.intro⟩⟩
  waits server wanted timeout phase _ := by
    have tallies (target : Nat) : Tallies counting (fun phase => phase = some target)
        (fun _ _ => True) target := by
      refine ⟨fun call idles phase looked => ?_, fun phase looked => ?_⟩ <;> subst looked
      · cases call <;> first | exact idles.elim | exact ⟨True.intro, fun _ => rfl⟩
      · exact ⟨rfl, fun _ => ⟨rfl, True.intro⟩⟩
    refine Tallies.wait tallies ?_ ?_ ?_ server wanted timeout
    · exact True.intro
    · exact ⟨rfl, fun _ => True.intro⟩
    · exact fun _ => ⟨True.intro, fun _ => ⟨True.intro, rfl⟩⟩

/-- The phase is what the last call came to, if it counted replicas. -/
def tallying : Protocol calls (Option Nat) where
  allows _ _ := True
  next _ call reply :=
    match call, reply with
    | .caughtUpTo _, caughtUp => some caughtUp
    | .count, count => some count
    | _, _ => none

/-- What `WAIT` answers is what it counted last. -/
theorem wait_tallying (server : Server) (wanted : Int) (timeout : Nat) (phase : Option Nat) :
    (Replication.wait server wanted timeout).Keeps tallying
      (fun phase caughtUp => phase = some caughtUp) phase := by
  have tallies (target : Nat) : Tallies tallying (fun _ => True)
      (fun phase caughtUp => phase = some caughtUp) target :=
    ⟨fun _ _ _ _ => ⟨True.intro, fun _ => True.intro⟩,
      fun _ _ => ⟨True.intro, fun _ => ⟨True.intro, rfl⟩⟩⟩
  refine Tallies.wait tallies ?_ ?_ ?_ server wanted timeout
  · exact True.intro
  · exact ⟨True.intro, fun _ => rfl⟩
  · exact fun _ => ⟨True.intro, fun _ => ⟨True.intro, True.intro⟩⟩

/-! ## Handing over -/

/-- What a replica is handed: the history it is to follow, how far along that is, and a
dataset to start from. -/
def fullResync (server : Server) (offset : Nat) : Value :=
  .sequence
    [.simpleString ("FULLRESYNC " ++ server.replicationId ++ " " ++ toString offset),
      .file Replication.emptyDataset]

/-- The program of a `PSYNC` that is agreed to. -/
def psync (server : Server) (client : Client) : Prog (Answer × Client) :=
  .call .offset fun offset => .ret (.replica (fullResync server offset), client)

variable [Platform]

/-- Whether a client asks for one of these commands. -/
def asksFor (names : List String) (asked : Value) : Bool :=
  match Command.parse asked with
  | .ok command => command.uppercased ∈ names
  | .error _ => false

/-- A connection turns into a replica's only by a `PSYNC` that is agreed to. -/
theorem run_replica (server : Server) (client : Client) (asked : Value) :
    ((run server client asked).Returns fun answered => ∃ reply, answered.1 = .reply reply) ∨
      (asksFor ["PSYNC"] asked ∧ run server client asked = psync server client) := by
  unfold run asksFor
  cases Command.parse asked with
  | error reply => exact .inl ⟨reply, rfl⟩
  | ok command =>
    dsimp only
    unfold runCommand
    split
    · exact .inl ⟨_, rfl⟩
    · split
      · exact .inl ⟨_, rfl⟩
      · split
        · exact .inl ⟨_, rfl⟩
        · by_cases isPsync : command.uppercased = "PSYNC"
          · obtain ⟨uppercased, name, args⟩ := command
            simp only at isPsync
            subst isPsync
            rcases args with _ | ⟨history, _ | ⟨offset, _ | ⟨third, others⟩⟩⟩
            · exact .inl ⟨_, rfl⟩
            · exact .inl ⟨_, rfl⟩
            · exact .inr ⟨by simp, rfl⟩
            · exact .inl ⟨_, rfl⟩
          · refine .inl (.map (.of_forall (fun replied => ⟨replied.1, ?_⟩) _))
            simp [answer, isPsync]

/-- A number that answers a `WAIT` is what it counted last. -/
def Tallied (phase : Option Nat) (answered : Answer × Client) : Prop :=
  ∀ number, answered.1 = .reply (.integer number) → ∃ count : Nat, phase = some count ∧
    number = count

omit [Platform] in
theorem waitProgram_tallying (server : Server) (args : List Bytes) (phase : Option Nat) :
    (waitProgram server args).Keeps tallying
      (fun phase value => ∀ number : Int, value = .integer number → ∃ count : Nat,
        phase = some count ∧ number = count) phase := by
  unfold waitProgram
  split
  · split
    · split
      · exact nofun
      · refine Program.Keeps.map ((wait_tallying server _ _ phase).mono ?_)
        rintro phase caughtUp rfl number isNumber
        cases isNumber
        exact ⟨caughtUp, rfl, rfl⟩
    · exact nofun
  · exact nofun

theorem run_tallying (server : Server) (client : Client) {asked : Value}
    (isWait : asksFor ["WAIT"] asked) (phase : Option Nat) :
    (run server client asked).Keeps tallying Tallied phase := by
  unfold asksFor at isWait
  unfold run
  cases parsed : Command.parse asked with
  | error reply => simp [parsed] at isWait
  | ok command =>
    simp only [parsed, List.mem_singleton, decide_eq_true_eq] at isWait
    dsimp only
    unfold runCommand
    split
    · exact nofun
    · split
      · exact nofun
      · split
        · exact nofun
        · have unsteered : Transactions.steer command client.transaction = none := by
            simp [Transactions.steer, isWait]
          have counted : (runAgainst server client command).Keeps tallying
              (fun phase replied => ∀ number : Int, replied.1 = .integer number →
                ∃ count : Nat, phase = some count ∧ number = count) phase := by
            rw [runAgainst_wait isWait]
            exact (waitProgram_tallying server command.args phase).map
          refine Program.Keeps.map ?_
          rw [carryOut, unsteered]
          refine counted.bind fun phase replied tallied => ?_
          rw [afterwards_unwritten (.inl (by simp [writtenDown, recordedAsSent, isWait]))]
          intro number isNumber
          simp only [answer, isWait, String.reduceEq, false_and, if_false,
            Answer.reply.injEq] at isNumber
          exact tallied number isNumber

end RedisServer
