import RedisServer.Recovery.Replay
import RedisServer.Server.Following

/-!
# One history for all replicas

A master queues what it passes on for every replica it follows at the time, and a replica
takes in what it hears command by command.  It goes on to the next one when it is done
with the last, which it is with everything a master passes on, and is not with a command
that waits.
-/

namespace RedisServer

section

variable [Platform] {supply : Nat → Env} {server : Server} {client : Client} {world : World}

/-- A command a replica is done with at once: it asks how far the replica has got, or is
one of those passed on as they came in, and a time to live that it gives is one the
replica's clock can stand for. -/
def Prompt (supply : Nat → Env) (found : Value) : Prop :=
  asksHowFar found = true ∨ ∃ command, Command.parse found = .ok command ∧
    recordedAsSent command.uppercased ∧
    ∀ key value span, command.target = some (key, .set value (some span)) →
      ∀ count, (instantAdd (supply count).clock.now span).isSome

/-- The terms on which a program ends whatever is supplied. -/
def Terms.promptly (supply : Nat → Env) : Terms Env World :=
  ⟨fun env => ∃ count, env = supply count, False, fun _ => False⟩

theorem runAgainst_promptly {command : Command} (recorded : recordedAsSent command.uppercased)
    (fits : ∀ key value span, command.target = some (key, .set value (some span)) →
      ∀ count, (instantAdd (supply count).clock.now span).isSome) :
    (runAgainst server client command).Ensures machine (Terms.promptly supply)
      (fun _ replied => replied.2 = client) world := by
  obtain ⟨program, writing, found, runs⟩ := runAgainst_recorded recorded
  have asked : command.target = askedOf program := by
    simp only [Command.target, found, Option.bind_some]
  rw [runs, Client.kept]
  refine Program.Ensures.map ?_
  cases writing with
  | refused isError => rfl
  | asked key op reply writes proper unwritten =>
    rintro env ⟨count, rfl⟩
    have performed : (world.store.performOn (supply count).clock key op).isSome := by
      cases op with
      | set value expiresIn =>
        cases expiresIn with
        | none => rfl
        | some span => simpa [State.performOn, State.set] using fits key value span asked count
      | xrange start stop => cases writes
      | _ => rfl
    obtain ⟨⟨after, answer⟩, isDone⟩ := Option.isSome_iff_exists.mp performed
    simp only [machine, World.perform, State.perform, isDone]
    exact True.intro

/-- Whatever the replica's store holds, it is done with such a command at once. -/
theorem takeIn_prompt {found : Value} (prompt : Prompt supply found) (trusted : client.Trusted)
    (count : Nat) (world : World) : ∃ last, takeIn (carryOutOn server supply)
      ((count, world), client) found = some (last, client) := by
  unfold takeIn
  split
  · exact ⟨_, rfl⟩
  · rename_i told
    rcases prompt with asks | ⟨command, parsed, recorded, fits⟩
    · exact absurd asks told
    have ends : (run server client found).Ensures machine (Terms.promptly supply)
        (fun _ replied => replied.2 = client) world := by
      simp only [run, parsed,
        runCommand_unsteered trusted (unsteered_of_recorded recorded client.transaction)]
      refine Program.Ensures.map ((runAgainst_promptly recorded fits).bind ?_)
      intro after replied isClient
      exact (afterwards_store replied).mono fun _ result ended => ended.1.trans isClient
    have ended := ends.exec (fun count => ⟨count, rfl⟩) count
    unfold carryOutOn
    split at ended
    · exact ended.elim
    · exact ended.elim
    · rename_i isDone
      rw [isDone]
      exact ⟨_, congrArg some (Prod.ext rfl ended)⟩

/-- A replica is done with all it is told. -/
theorem foldlM_takeIn_prompt {commands : List Value}
    (prompt : ∀ command ∈ commands, Prompt supply command) (trusted : client.Trusted)
    (here : Nat × World) :
    ∃ last, commands.foldlM (takeIn (carryOutOn server supply)) (here, client) = some last := by
  induction commands generalizing here with
  | nil => exact ⟨_, rfl⟩
  | cons command commands ih =>
    rw [List.forall_mem_cons] at prompt
    obtain ⟨middle, isTaken⟩ := @takeIn_prompt _ supply server client command prompt.1 trusted
      here.1 here.2
    obtain ⟨last, isLast⟩ := ih prompt.2 middle
    exact ⟨last, by rw [List.foldlM_cons, isTaken]; exact isLast⟩

end

/-- All replicas hear one history and count it the same way.  What is queued for a
replica is what was sent while it was followed, in the order it was sent, so that of
two that are followed the later hears a suffix of what the earlier does.  However the
dataset and the commands after it are cut into reads, a replica takes in that dataset
and those commands, if it is done with each of them at once, and is then as far along as
they are long. -/
theorem one_history [Platform] :
    (∀ events : List ReplicaEvent, (added events).Nodup →
      (∀ replica ∈ (World.happened events).replicas,
        replica.changes = (listening replica.connection events).heard) ∧
      (∀ id, (listening id events).registered →
        ∃ replica ∈ (World.happened events).following, replica.connection = id) ∧
      ((added events).Pairwise fun earlier later =>
        (listening earlier events).registered → (listening later events).registered →
          (listening later events).heard <:+ (listening earlier events).heard) ∧
      ∀ command, (∃ id, (listening id events).registered) →
        ∃ later, (World.happened events).perform {} (.send command) =
          .done later command.encode.length) ∧
    ∀ (server : Server) (supply : Nat → Env) (here : Nat × World) (client : Client)
      (dataset : Bytes) (commands : List Value) (heard : Bytes) (reads : List Bytes)
      (start : Nat),
      dataset.length ≤ usizeMax →
      (∀ command ∈ commands, command.Readable ∧ command.depth ≤ maxDepth) →
      (∀ command ∈ commands, Prompt supply command) → client.Trusted →
      heard ++ reads.flatten = (Value.file dataset).encode ++ encodeAll commands →
      ∃ later others taken last, takeFile heard reads = .ok (some (dataset, later, others)) ∧
        keepUpAll (carryOutOn server supply) start (here, client) later others =
          ⟨taken, some last, none⟩ ∧
        taken.map Taken.command = commands ∧
        ∀ index, index < commands.length →
          (taken[index]?).map Taken.offset =
            some (start + ((commands.take (index + 1)).map fun command =>
              command.encode.length).sum) := by
  refine ⟨?_, ?_⟩
  · intro events distinct
    have queued := happened_queued events distinct
    refine ⟨?_, ?_, heard_nested events distinct, ?_⟩
    · intro replica member
      rw [queued.queue replica member]
    · intro id registered
      exact queued.isFollowed registered
    · intro command ⟨id, registered⟩
      obtain ⟨replica, isFollowed, _⟩ := queued.isFollowed registered
      have followed : (World.happened events).following.isEmpty = false :=
        List.isEmpty_eq_false_iff_exists_mem.mpr ⟨replica, isFollowed⟩
      exact ⟨_, by rw [perform_send, followed]; rfl⟩
  · intro server supply here client dataset commands heard reads start fits readable prompt
      trusted stream
    obtain ⟨last, ends⟩ := @foldlM_takeIn_prompt _ supply server client commands prompt trusted here
    obtain ⟨later, others, isTaken, rest⟩ := takeFile_whole fits stream
    refine ⟨later, others, _, last, isTaken, keepUpAll_commands readable rest ends, ?_, ?_⟩
    · rw [takings_commands, List.map_map]
      exact List.map_id' commands
    · intro index within
      rw [takings_offset (by simpa using within), ← List.map_take, List.map_map]
      rfl

theorem one_history_of_two_replicas :
    let set := asCommand [utf8 "SET", utf8 "k", utf8 "v", utf8 "EX", utf8 "10"]
    let howFar := asCommand [utf8 "REPLCONF", utf8 "GETACK", utf8 "*"]
    let carryOut := @carryOutOn Platform.ascii {} fun _ => {}
    let events : List ReplicaEvent := [.add 0, .send set, .add 1, .send howFar]
    (added events).Nodup ∧
      (listening 1 events).heard <:+ (listening 0 events).heard ∧
      ∃ later others taken last,
        takeFile (utf8 "$2") [utf8 "\r\n", [7, 7, 42], (encodeAll [set, howFar]).drop 1] =
          .ok (some ([7, 7], later, others)) ∧
        keepUpAll carryOut 5 ((0, {}), {}) later others = ⟨taken, some last, none⟩ ∧
        taken.map Taken.command = [set, howFar] ∧
        (taken[1]?).map Taken.offset = some (5 + 80) := by
  intro set howFar carryOut events
  obtain ⟨queues, replicas⟩ := @one_history Platform.ascii
  have distinct : (added events).Nodup := by decide
  have readable : ∀ command ∈ [set, howFar], command.Readable ∧ command.depth ≤ maxDepth := by
    simp [set, howFar, asCommand, Value.Readable, ReadableAll, Value.depth, depthAll,
      maxDepth, maxBulkLength, usizeMax]
    decide +kernel
  have prompt : ∀ command ∈ [set, howFar], @Prompt .ascii (fun _ => {}) command := by
    refine List.forall_mem_cons.mpr ⟨.inr ⟨_, rfl, rfl, ?_⟩, ?_⟩
    · intro key value span asked count
      have isSpan : span = Duration.ofSeconds 10 := by
        cases asked
        decide +kernel
      subst isSpan
      exact (by decide : (instantAdd 0 (Duration.ofSeconds 10)).isSome = true)
    · exact List.forall_mem_singleton.mpr (.inl (by decide +kernel))
  have nested := (queues events distinct).2.2.1
  obtain ⟨later, others, taken, last, file, keptUp, commands, offsets⟩ :=
    replicas {} (fun _ => {}) (0, {}) {} [7, 7] [set, howFar] (utf8 "$2")
      [utf8 "\r\n", [7, 7, 42], (encodeAll [set, howFar]).drop 1] 5 (by decide) readable prompt
      ⟨rfl, rfl, rfl⟩ (by decide +kernel)
  refine ⟨distinct, ?_, later, others, taken, last, file, keptUp, commands, ?_⟩
  · exact (List.pairwise_cons.mp nested).1 1 (by decide) rfl rfl
  · rw [offsets 1 (by decide)]
    decide +kernel

/-- A replica that is told to wait for an element does not come to what it is told next. -/
theorem replica_waits_for_good :
    let commands := [asCommand [utf8 "BLPOP", utf8 "k", utf8 "0"],
      asCommand [utf8 "SET", utf8 "a", utf8 "1"]]
    let keptUp := keepUpAll (@carryOutOn .ascii {} fun _ => {}) 0 ((0, {}), {})
    (∀ command ∈ commands, command.Readable ∧ command.depth ≤ maxDepth) ∧
      takeFile ((Value.file [7, 7]).encode ++ encodeAll commands) [] =
        .ok (some ([7, 7], encodeAll commands, [])) ∧
      (keptUp (encodeAll commands) []).taken = [] ∧
      (keptUp (encodeAll commands) []).state = none := by
  refine ⟨?_, rfl, List.length_eq_zero_iff.mp (by decide +kernel),
    Option.isNone_iff_eq_none.mp (by decide +kernel)⟩
  simp [asCommand, Value.Readable, ReadableAll, Value.depth, depthAll, maxDepth, maxBulkLength,
    usizeMax]
  decide +kernel

end RedisServer
