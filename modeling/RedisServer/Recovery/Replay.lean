import RedisServer.Aof
import RedisServer.Commands.Effect

/-!
# Doing the recorded commands again

A server coming back up runs the commands of its log as though a client had just
sent them.  Each of them does to the keyspace what `carry` says, so that what comes
up is the commands carried out one after the other on a store that holds nothing.
-/

namespace RedisServer

variable [Platform]

/-- Does again what the recorded commands did, and says how many were done.  A
command that comes back with an error is passed over. -/
def replay (server : Server) (client : Client) (replayed : Nat) : List Value → Prog Nat
  | [] => .ret replayed
  | command :: commands =>
    (run server client command).bind fun (answer, client) =>
      let refused :=
        match answer with
        | .reply value => value.isError
        | .replica _ => false
      replay server client (if refused then replayed else replayed + 1) commands

/-- What recorded words do to a keyspace. -/
def carryWords (clock : Clock) (words : List Bytes) (space : Keyspace) : Keyspace :=
  match Command.parse (asCommand words) with
  | .ok command => command.carry clock space
  | .error _ => space

/-- The keyspace these records come to, carried out on nothing. -/
def rebuilt (records : List (List Bytes)) : Keyspace :=
  records.foldl (fun space words => carryWords ⟨0, 0⟩ words space) fun _ => none

/-- Words that were recorded: a client can send them, and they name a command that
is recorded as it came in and means the same at any time. -/
structure Replayable (words : List Bytes) : Prop where
  sendable : Sendable words
  command : ∃ command, Command.parse (asCommand words) = .ok command ∧
    recordedAsSent command.uppercased ∧ command.Plain

/-! ## One recorded command -/

/-- A command that was read is laid out as it came in. -/
theorem eq_asSent_of_parse {found : Value} {command : Command}
    (spelled : Command.parse found = .ok command) : found = command.asSent := by
  unfold Command.parse at spelled
  split at spelled
  · cases spelled
  · cases spelled
  · rename_i name args parts
    split at spelled
    · cases spelled
    · cases spelled
      exact eq_asCommand_of_intoParts parts

/-- What running a recorded command against the store leaves. -/
structure Ran (command : Command) (client : Client) (before after : World)
    (replied : Value × Client) : Prop where
  client : replied.2 = client
  world : after = { before with store := after.store }
  settled : after.store.Settled
  carried : after.store.contents = command.carry ⟨0, 0⟩ before.store.contents
  refused : replied.1.isError → after.store.contents = before.store.contents

variable {terms : Terms Env World} {server : Server} {command : Command} {client : Client}
  {world : World}

theorem runAgainst_ensures (recorded : recordedAsSent command.uppercased)
    (plain : command.Plain) (settled : world.store.Settled) :
    (runAgainst server client command).Ensures machine terms (Ran command client world)
      world := by
  obtain ⟨program, writing, found, runs⟩ := runAgainst_recorded recorded
  have asked : command.target = askedOf program := by
    simp only [Command.target, found, Option.bind_some]
  rw [runs, Client.kept]
  refine Program.Ensures.map ?_
  cases writing with
  | refused isError =>
    have carried : command.carry ⟨0, 0⟩ world.store.contents = world.store.contents := by
      simp [Command.carry, asked, askedOf]
    exact ⟨rfl, rfl, settled, carried.symm, fun _ => rfl⟩
  | asked key op reply writes proper unwritten =>
    have timeless := plain.timeless recorded asked
    intro env permitted
    cases performed : world.store.performOn env.clock key op with
    | none => exact absurd performed (State.performOn_ne_none timeless writes _ _ _)
    | some result =>
      obtain ⟨after, answer⟩ := result
      obtain ⟨afterSettled, cell, acted, changed⟩ :=
        settled.performOn timeless proper performed
      have carried : command.carry ⟨0, 0⟩ world.store.contents = after.contents := by
        rw [KeyOp.act_timeless timeless env.clock ⟨0, 0⟩] at acted
        simp only [Command.carry, asked, askedOf, ask, Keyspace.carry, acted, changed]
      simp only [machine, World.perform, State.perform, performed]
      refine ⟨rfl, rfl, afterSettled, carried.symm, fun isError => ?_⟩
      have same := KeyOp.act_unwritten (fun held found => ?_) acted
        (unwritten answer isError)
      · rw [changed, same, Function.update_eq_self]
      · obtain ⟨entry, isEntry, rfl⟩ := Option.map_eq_some_iff.mp found
        exact settled.proper.cells key entry isEntry

/-- A client that is let in, listens to nothing and is in no transaction. -/
structure Client.Trusted (client : Client) : Prop where
  authenticated : client.authenticated
  silent : client.subscriptions.listening = false
  outside : client.transaction.queued = none

omit [Platform] in
/-- A recorded command steers no transaction. -/
theorem unsteered_of_recorded (recorded : recordedAsSent command.uppercased)
    (transaction : Transaction) :
    Transactions.steersATransaction command.uppercased = false ∧
      Transactions.steer command transaction = none := by
  obtain ⟨uppercased, name, args⟩ := command
  simp only at recorded
  rcases mem_recordedAsSent recorded with
    rfl | rfl | rfl | rfl | rfl | rfl | rfl | rfl | rfl <;> exact ⟨rfl, rfl⟩

/-- Such a client has a command that steers no transaction dispatched at once. -/
theorem runCommand_unsteered (trusted : client.Trusted)
    (unsteered : Transactions.steersATransaction command.uppercased = false ∧
      Transactions.steer command client.transaction = none) :
    runCommand server client command = answer command <$> dispatch server client command := by
  simp only [runCommand, trusted.authenticated, trusted.silent, trusted.outside,
    Bool.not_true, Bool.false_and, Bool.false_eq_true, if_false, carryOut, unsteered]

omit [Platform] in
/-- Passing a command on leaves the store and the log alone. -/
theorem passOn_ensures (written : Value) (replied : Value × Client) :
    (passOn server written replied).Ensures machine terms
      (fun after result => result = replied ∧ after.store = world.store ∧
        after.log = world.log) world := by
  unfold passOn
  split
  · intro env permitted
    simp only [machine, World.perform]
    split
    · exact fun env permitted => ⟨rfl, rfl, rfl⟩
    · exact fun env permitted => ⟨rfl, rfl, rfl⟩
  · exact ⟨rfl, rfl, rfl⟩

omit [Platform] in
/-- Whatever is left to do once a command has been run leaves the store alone. -/
theorem afterwards_store (replied : Value × Client) :
    (afterwards server command replied).Ensures machine terms
      (fun after result => result.2 = replied.2 ∧ after.store = world.store) world := by
  unfold afterwards
  split
  · exact ⟨rfl, rfl⟩
  · split
    · exact ⟨rfl, rfl⟩
    · unfold noteDown
      split
      · intro env permitted
        simp only [machine, World.perform]
        split
        · exact (passOn_ensures _ _).mono fun after result passed =>
            ⟨by rw [passed.1], passed.2.1⟩
        · exact ⟨rfl, rfl⟩
      · exact (passOn_ensures _ _).mono fun after result passed =>
          ⟨by rw [passed.1], passed.2.1⟩

/-- A recorded command does again what it did. -/
theorem run_replayable {words : List Bytes} (replayable : Replayable words)
    (trusted : client.Trusted) (settled : world.store.Settled) :
    (run server client (asCommand words)).Ensures machine terms
      (fun after replied => replied.2 = client ∧ after.store.Settled ∧
        after.store.contents = carryWords ⟨0, 0⟩ words world.store.contents) world := by
  obtain ⟨command, parsed, recorded, plain⟩ := replayable.command
  simp only [run, parsed, carryWords,
    runCommand_unsteered trusted (unsteered_of_recorded recorded client.transaction)]
  refine Program.Ensures.map ?_
  refine (runAgainst_ensures recorded plain settled).bind fun after replied ran => ?_
  refine (afterwards_store replied).mono fun last result ended => ?_
  obtain ⟨sameClient, sameStore⟩ := ended
  simp only [answer, sameClient, sameStore]
  exact ⟨ran.client, ran.settled, ran.carried⟩

/-- Doing the recorded commands again carries them out one after the other. -/
theorem replay_ensures {records : List (List Bytes)}
    (replayable : ∀ words ∈ records, Replayable words) (trusted : client.Trusted)
    (settled : world.store.Settled) (replayed : Nat) :
    (replay server client replayed (records.map asCommand)).Ensures machine terms
      (fun after _ => after.store.Settled ∧ after.store.contents =
        records.foldl (fun space words => carryWords ⟨0, 0⟩ words space)
          world.store.contents) world := by
  induction records generalizing world replayed with
  | nil => exact ⟨settled, rfl⟩
  | cons words records ih =>
    simp only [List.map_cons, replay, List.foldl_cons]
    refine (run_replayable (replayable words (by simp)) trusted settled).bind
      fun after replied again => ?_
    obtain ⟨sameClient, afterSettled, carried⟩ := again
    rw [← carried, sameClient]
    exact ih (fun other member => replayable other (by simp [member])) afterSettled _

/-- A log of recorded commands, read back and done again on an empty store, comes to
the commands carried out one after the other. -/
theorem replay_recorded {records : List (List Bytes)} {log : Bytes}
    (replayable : ∀ words ∈ records, Replayable words)
    (isLog : log = encodeAll (records.map asCommand)) (supply : Nat → Env) :
    ∃ commands count after replayed, Aof.recorded log = .ok commands ∧
      (replay { server with recording := false } {} 0 commands).exec machine supply 0
        { log := log } = .done (count, after) replayed ∧
      after.store.Settled ∧ after.store.contents = rebuilt records := by
  have readBack := Aof.recorded_encodeAll fun words member =>
    (replayable words member).sendable
  rw [← isLog] at readBack
  have ensures := @replay_ensures _ Terms.total { server with recording := false } {}
    { log := log } records replayable ⟨rfl, rfl, rfl⟩ State.settled_empty 0
  obtain ⟨count, after, replayed, ends, settled, contents⟩ := ensures.exec_total supply 0
  refine ⟨_, count, after, replayed, readBack, ends, settled, ?_⟩
  rw [contents]
  rfl

end RedisServer
