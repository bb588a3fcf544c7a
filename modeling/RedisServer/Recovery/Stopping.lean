import RedisServer.Recovery.Sequential
import RedisServer.Commands.Passing
import RedisServer.Server.Frames

/-!
# What a server that is stopped leaves in its log

A server can be stopped between any two calls, and part way through an append.  What it
leaves in the log is then a front part of what it was going to write, and every front part
can be left.

The commands of a transaction are recorded one by one as they are carried out, so that a
server stopped in the middle of `EXEC` comes back up with what a first part of them did.
-/

namespace RedisServer

/-! ## Stopping anywhere -/

/-- What a call puts on record. -/
def Call.records : Call → List Value
  | .record command => [command]
  | _ => []

/-- What the log holds when a program is stopped after so many calls, and so many bytes into
the append it was about to make, if it was about to make one. -/
def stoppedLog {α : Type} (supply : Nat → Env) (part : Nat) :
    Prog α → Nat → Nat → World → Bytes
  | .ret _, _, _, world => world.log
  | .call request _, 0, _, world => world.log ++ (encodeAll request.records).take part
  | .call request resume, calls + 1, count, world =>
    match machine.perform (supply count) world request with
    | .stuck => world.log
    | .panicked world => world.log
    | .done world reply => stoppedLog supply part (resume reply) calls (count + 1) world

/-- What a program puts on record if it is not stopped. -/
def recordsMade {α : Type} (supply : Nat → Env) : Prog α → Nat → World → List Value
  | .ret _, _, _ => []
  | .call request resume, count, world =>
    match machine.perform (supply count) world request with
    | .done world reply => request.records ++ recordsMade supply (resume reply) (count + 1) world
    | _ => []

section

variable {α β : Type} {supply : Nat → Env} (appends : ∀ n, (supply n).append = none)

theorem encodeAll_append (first second : List Value) :
    encodeAll (first ++ second) = encodeAll first ++ encodeAll second := by
  simp [encodeAll_eq_flatMap]

/-- An append that goes through puts its record at the end of the log. -/
theorem log_of_perform {env : Env} (appended : env.append = none) {world after : World}
    {call : Call} {reply : call.Reply} (performed : world.perform env call = .done after reply) :
    after.log = world.log ++ encodeAll call.records := by
  have framed := (perform_framed performed).log
  cases call with
  | record command =>
    simp only [World.perform, appended] at performed
    cases performed
    simp [Call.records, encodeAll]
  | _ => exact (framed rfl).trans (List.append_nil _).symm

/-- An append is always carried out, for better or worse. -/
theorem records_or_performed (env : Env) (world : World) (call : Call) :
    call.records = [] ∨ ∃ after reply, world.perform env call = .done after reply := by
  cases call with
  | record command =>
    right
    simp only [World.perform]
    cases env.append with
    | none | some _ => exact ⟨_, _, rfl⟩
  | _ => exact .inl rfl

include appends

/-- What is left in the log is a front part of what was to be written. -/
theorem exists_stoppedLog_eq (program : Prog α) (calls part count : Nat) (world : World) :
    ∃ cut, stoppedLog supply part program calls count world =
      world.log ++ (encodeAll (recordsMade supply program count world)).take cut := by
  induction program generalizing calls count world with
  | ret value => exact ⟨0, (List.append_nil _).symm⟩
  | call request resume ih =>
    have perform {after : World} {reply : request.Reply} :=
      @log_of_perform _ (appends count) world after request reply
    simp only [recordsMade, machine]
    cases calls with
    | zero =>
      rw [stoppedLog]
      rcases records_or_performed (supply count) world request with nothing | done
      · exact ⟨0, by rw [nothing, encodeAll, List.take_nil, List.take_zero]⟩
      · obtain ⟨after, reply, performed⟩ := done
        refine ⟨min part (encodeAll request.records).length, ?_⟩
        simp only [performed]
        rw [encodeAll_append, List.take_append_of_le_length (min_le_right _ _),
          ← List.take_take, List.take_length]
    | succ calls =>
      simp only [stoppedLog, machine]
      cases performed : World.perform (supply count) world request with
      | stuck => exact ⟨0, (List.append_nil _).symm⟩
      | panicked after =>
        rw [perform_panicked performed]
        exact ⟨0, (List.append_nil _).symm⟩
      | done after reply =>
        obtain ⟨cut, isCut⟩ := ih reply calls (count + 1) after
        refine ⟨(encodeAll request.records).length + cut, ?_⟩
        dsimp only
        rw [isCut, perform performed, encodeAll_append, List.take_length_add_append,
          List.append_assoc]

/-- Every front part of what was to be written can be left in the log. -/
theorem exists_stop (program : Prog α) (cut count : Nat) (world : World) :
    ∃ calls part, stoppedLog supply part program calls count world =
      world.log ++ (encodeAll (recordsMade supply program count world)).take cut := by
  induction program generalizing cut count world with
  | ret value => exact ⟨0, 0, by simp [stoppedLog, recordsMade, encodeAll]⟩
  | call request resume ih =>
    have perform {after : World} {reply : request.Reply} :=
      @log_of_perform _ (appends count) world after request reply
    simp only [recordsMade, machine]
    cases performed : World.perform (supply count) world request with
    | stuck | panicked _ => exact ⟨0, 0, by simp [stoppedLog, encodeAll]⟩
    | done after reply =>
      dsimp only
      rw [encodeAll_append]
      by_cases inside : cut ≤ (encodeAll request.records).length
      · exact ⟨0, cut, by rw [stoppedLog, List.take_append_of_le_length inside]⟩
      · obtain ⟨calls, part, isLog⟩ :=
          ih reply (cut - (encodeAll request.records).length) (count + 1) after
        refine ⟨calls + 1, part, ?_⟩
        simp only [stoppedLog, machine, performed]
        rw [isLog, perform performed, List.append_assoc, List.take_append,
          List.take_of_length_le (Nat.le_of_not_ge inside)]

omit appends in
/-- A program made of others puts on record what they do, one after the other. -/
theorem recordsMade_bind (program : Prog α) (next : α → Prog β) (count : Nat) (world : World) :
    recordsMade supply (program >>= next) count world =
      recordsMade supply program count world ++
        match program.exec machine supply count world with
        | .done last value => recordsMade supply (next value) last.1 last.2
        | _ => [] := by
  induction program generalizing count world with
  | ret value => rfl
  | call request resume ih =>
    simp only [Program.call_bind, recordsMade, Program.exec_call]
    cases machine.perform (supply count) world request with
    | stuck => rfl
    | panicked after => rfl
    | done after reply => simp only [ih, List.append_assoc]

omit appends in
theorem recordsMade_eq_nil {program : Prog α}
    (makes : program.Makes fun call : Call => call.records = []) (count : Nat) (world : World) :
    recordsMade supply program count world = [] := by
  induction program generalizing count world with
  | ret value => rfl
  | call request resume ih =>
    simp only [recordsMade, makes.1]
    cases machine.perform (supply count) world request with
    | stuck => rfl
    | panicked after => rfl
    | done after reply => exact ih reply (makes.2 reply) (count + 1) after

end

/-! ## The commands of a transaction -/

/-- What is put on record for a command that was answered like this. -/
def notedFor (command : Command) (reply : Value) : List Value :=
  if reply.isError then [] else (writtenDown command reply).toList

/-- What is put on record for a queue, the first commands of which were answered. -/
def notedForAll (queue : List Command) (replies : List Value) : List Value :=
  (queue.zip replies).flatMap fun answered => notedFor answered.1 answered.2

section

variable [Platform] {supply : Nat → Env} {server : Server}

/-- Running a command puts nothing on record: that comes afterwards. -/
theorem recordsMade_runAgainst (client : Client) (command : Command) (count : Nat)
    (world : World) : recordsMade supply (runAgainst server client command) count world = [] := by
  refine recordsMade_eq_nil ?_ count world
  by_cases isWait : command.uppercased = "WAIT"
  · rw [runAgainst_wait isWait]
    refine ((waitProgram_waits _ _).mono fun call waits => ?_).map _
    cases call <;> first | rfl | exact waits.elim
  · refine (runAgainst_apart isWait server client).mono fun call apart => ?_
    cases call <;> first | rfl | exact apart.elim

variable (appends : ∀ n, (supply n).append = none) (recording : server.recording)

include appends recording

omit [Platform] in
/-- What was done is put on record, and the reply goes out as it was. -/
theorem afterwards_noted (command : Command) (replied : Value × Client) (count : Nat)
    (world : World) :
    recordsMade supply (afterwards server command replied) count world =
        notedFor command replied.1 ∧
      ∃ last, (afterwards server command replied).exec machine supply count world =
        .done last replied ∧ last.2.store = world.store := by
  have passed (written : Value) (count : Nat) (world : World) :
      recordsMade supply (passOn server written replied) count world = [] ∧
        ∃ last, (passOn server written replied).exec machine supply count world =
          .done last replied ∧ last.2.store = world.store := by
    unfold passOn
    split
    · simp only [recordsMade, Program.exec_call, machine, World.perform]
      by_cases nobody : world.following.isEmpty
      · simp only [if_pos nobody]
        exact ⟨rfl, _, rfl, rfl⟩
      · simp only [if_neg nobody]
        exact ⟨rfl, _, rfl, rfl⟩
    · exact ⟨rfl, _, rfl, rfl⟩
  unfold afterwards notedFor
  split
  · exact ⟨rfl, _, rfl, rfl⟩
  · split
    · rename_i nothing
      rw [nothing]
      exact ⟨rfl, _, rfl, rfl⟩
    · rename_i written isWritten
      rw [isWritten]
      simp only [noteDown, recording, if_true, recordsMade, Program.exec_call, machine,
        World.perform, appends count]
      obtain ⟨nothing, ends⟩ :=
        passed written (count + 1) { world with log := world.log ++ written.encode }
      exact ⟨by rw [nothing]; rfl, ends⟩

/-- A command that is answered is put on record as it was answered; any other is not. -/
theorem dispatch_noted (client : Client) (command : Command) (count : Nat) (world : World) :
    recordsMade supply (dispatch server client command) count world =
      match (dispatch server client command).exec machine supply count world with
      | .done _ replied => notedFor command replied.1
      | _ => [] := by
  unfold dispatch
  rw [Program.bind_eq, recordsMade_bind, recordsMade_runAgainst, Program.exec_bind, List.nil_append]
  cases (runAgainst server client command).exec machine supply count world with
  | stuck => rfl
  | panicked after => rfl
  | done last replied =>
    obtain ⟨noted, after, ends, -⟩ :=
      afterwards_noted appends recording command replied last.1 last.2
    simp only [noted, ends]

/-- The commands of a queue are put on record one after the other, as they are answered. -/
theorem execute_noted (client : Client) (queue : List Command) (before : List Value)
    (count : Nat) (world : World) :
    ∃ replies, replies.length ≤ queue.length ∧
      recordsMade supply (execute server client before queue) count world =
        notedForAll queue replies ∧
      ∀ last replied, (execute server client before queue).exec machine supply count world =
        .done last replied → replied.1 = .array (before ++ replies) ∧
          replies.length = queue.length := by
  induction queue generalizing client before count world with
  | nil =>
    refine ⟨[], Nat.le_refl _, rfl, fun last replied ends => ?_⟩
    cases ends
    exact ⟨by rw [List.append_nil], rfl⟩
  | cons command queue ih =>
    have noted := @dispatch_noted _ supply server appends recording client command count world
    simp only [execute, Program.bind_eq, recordsMade_bind, Program.exec_bind, noted]
    cases (dispatch server client command).exec machine supply count world with
    | stuck | panicked _ => exact ⟨[], Nat.zero_le _, rfl, fun _ _ ends => by cases ends⟩
    | done last replied =>
      obtain ⟨replies, short, made, ends⟩ :=
        ih replied.2 (before ++ [replied.1]) last.1 last.2
      refine ⟨replied.1 :: replies, Nat.succ_le_succ short, ?_, fun final result done => ?_⟩
      · simp only [made]
        rfl
      · obtain ⟨isArray, whole⟩ := ends final result done
        exact ⟨by rw [isArray, List.append_assoc]; rfl, congrArg (· + 1) whole⟩

omit appends recording in
/-- What is put on record for commands a client can send is such a command. -/
theorem sendable_of_noted {queue : List Command}
    (sendable : ∀ command ∈ queue, Sendable (command.name :: command.args))
    (replies : List Value) :
    ∃ records : List (List Bytes), notedForAll queue replies = records.map asCommand ∧
      ∀ words ∈ records, Sendable words := by
  induction queue generalizing replies with
  | nil => exact ⟨[], rfl, by simp⟩
  | cons command queue ih =>
    cases replies with
    | nil => exact ⟨[], rfl, by simp⟩
    | cons reply replies =>
      obtain ⟨records, isAll, all⟩ :=
        ih (fun other member => sendable other (by simp [member])) replies
      have first : ∃ words : List (List Bytes), notedFor command reply = words.map asCommand ∧
          ∀ word ∈ words, Sendable word := by
        have own := sendable command (by simp)
        unfold notedFor writtenDown
        split
        · exact ⟨[], rfl, by simp⟩
        · split
          · exact ⟨[_], rfl, by simpa using own⟩
          · split
            · split
              · rename_i key rest values isArgs noError
                refine ⟨[_], rfl, ?_⟩
                rw [List.forall_mem_singleton]
                exact (replayable_lpopOf (own.small key (by simp [isArgs]))).sendable
              · exact ⟨[], rfl, by simp⟩
            · exact ⟨[], rfl, by simp⟩
      obtain ⟨words, isFirst, each⟩ := first
      refine ⟨words ++ records, ?_, List.forall_mem_append.mpr ⟨each, all⟩⟩
      rw [List.map_append, ← isFirst, ← isAll]
      rfl

end

/-! ## What a server stopped in the middle comes back up with -/

/-- A log cut off in what was written last reads back as what was there before and a first
part of the rest. -/
theorem recorded_cut_after {before records : List (List Bytes)}
    (sendable : ∀ words ∈ before, Sendable words) (others : ∀ words ∈ records, Sendable words)
    (cut : Nat) : ∃ kept, Aof.recorded (encodeAll (before.map asCommand) ++
        (encodeAll (records.map asCommand)).take cut) =
      .ok (before.map asCommand ++ (records.map asCommand).take kept) := by
  have whole := Aof.recorded_take (List.forall_mem_append.mpr ⟨sendable, others⟩)
    ((encodeAll (before.map asCommand)).length + cut)
  obtain ⟨kept, isTake, -⟩ :=
    Framing.exists_wholly_eq_take Value.encode (records.map asCommand) cut
  refine ⟨kept, ?_⟩
  rw [List.map_append, encodeAll_append, List.take_length_add_append] at whole
  rw [whole, Framing.wholly_append _ _ _ _ (by rw [← encodeAll_eq_flatMap]; omega),
    ← encodeAll_eq_flatMap, Nat.add_sub_cancel_left, isTake]

theorem recorded_kept {before records : List (List Bytes)}
    (sendable : ∀ words ∈ before, Sendable words) (others : ∀ words ∈ records, Sendable words)
    (kept : Nat) : ∃ cut, Aof.recorded (encodeAll (before.map asCommand) ++
        (encodeAll (records.map asCommand)).take cut) =
      .ok (before.map asCommand ++ (records.map asCommand).take kept) := by
  refine ⟨(encodeAll ((records.take kept).map asCommand)).length, ?_⟩
  have split : encodeAll (records.map asCommand) = encodeAll ((records.take kept).map asCommand) ++
      encodeAll ((records.drop kept).map asCommand) := by
    rw [← encodeAll_append, ← List.map_append, List.take_append_drop]
  rw [split, List.take_left, ← encodeAll_append, ← List.map_append, Aof.recorded_encodeAll,
    List.map_append, List.map_take]
  rw [List.forall_mem_append]
  exact ⟨sendable, fun words member => others words (List.mem_of_mem_take member)⟩

section

variable [Platform] {supply : Nat → Env} {server : Server}

/-- What a queue does to a keyspace, one command after the other. -/
def carryAll (queue : List Command) (space : Keyspace) : Keyspace :=
  queue.foldl (fun space command => command.carry ⟨0, 0⟩ space) space

/-- The replies to commands tell which of them did something. -/
def Told : Keyspace → List Command → List Value → Prop
  | _, [], replies => replies = []
  | space, command :: queue, replies => ∃ reply others, replies = reply :: others ∧
      (reply.isError → command.carry ⟨0, 0⟩ space = space) ∧
        Told (command.carry ⟨0, 0⟩ space) queue others

/-- Commands a client can send, recorded as they came in, that mean the same at any time. -/
def Writes (queue : List Command) : Prop :=
  ∀ command ∈ queue, command.Admitted ∧ recordedAsSent command.uppercased

/-- A queue of writes runs through, and its replies tell what was done. -/
theorem execute_told {queue : List Command} (writes : Writes queue) {client : Client}
    {before : List Value} {count : Nat} {world : World} (recording : server.recording)
    (appends : ∀ n, (supply n).append = none) (settled : world.store.Settled) :
    ∃ last replied replies,
      (execute server client before queue).exec machine supply count world = .done last replied ∧
        replied.1 = .array (before ++ replies) ∧ Told world.store.contents queue replies := by
  induction queue generalizing client before count world with
  | nil => exact ⟨_, _, [], rfl, by rw [List.append_nil], rfl⟩
  | cons command queue ih =>
    obtain ⟨admitted, isRecorded⟩ := writes command (by simp)
    have ensures := @runAgainst_ensures _ Terms.total server command client world isRecorded
      admitted.plain settled
    obtain ⟨used, after, replied, runs, ran⟩ := ensures.exec_total supply count
    obtain ⟨-, last, ends, sameStore⟩ :=
      @afterwards_noted supply server appends recording command replied used after
    have dispatched : (dispatch server client command).exec machine supply count world =
        .done last replied := by
      rw [dispatch, Program.bind_eq, Program.exec_bind, runs]
      exact ends
    have carried : last.2.store.contents = command.carry ⟨0, 0⟩ world.store.contents := by
      rw [sameStore, ran.carried]
    obtain ⟨final, result, replies, done, isArray, told⟩ :=
      @ih (fun other member => writes other (by simp [member])) replied.2
        (before ++ [replied.1]) last.1 last.2 (sameStore ▸ ran.settled)
    refine ⟨final, result, replied.1 :: replies, ?_, by rw [isArray, List.append_assoc]; rfl,
      replied.1, replies, rfl, fun isError => ?_, carried ▸ told⟩
    · rw [execute, Program.bind_eq, Program.exec_bind, dispatched]
      exact done
    · rw [← ran.carried, ran.refused isError]

/-- The records of a first part of the queue do what that part of the queue does. -/
theorem Told.exists_part {space : Keyspace} {queue : List Command} {replies : List Value}
    (writes : Writes queue) (told : Told space queue replies) :
    ∃ records : List (List Bytes), notedForAll queue replies = records.map asCommand ∧
      (∀ words ∈ records, Replayable words) ∧
      (∀ kept, ∃ done ≤ queue.length,
        (records.take kept).foldl (fun space words => carryWords ⟨0, 0⟩ words space) space =
          carryAll (queue.take done) space) ∧
      ∀ done ≤ queue.length, ∃ kept,
        (records.take kept).foldl (fun space words => carryWords ⟨0, 0⟩ words space) space =
          carryAll (queue.take done) space := by
  induction queue generalizing space replies with
  | nil =>
    obtain rfl : replies = [] := told
    exact ⟨[], rfl, by simp, fun kept => ⟨0, Nat.le_refl _, by simp [carryAll]⟩,
      fun done _ => ⟨0, by simp [carryAll]⟩⟩
  | cons command queue ih =>
    obtain ⟨reply, others, rfl, refused, rest⟩ := told
    obtain ⟨admitted, isRecorded⟩ := writes command (by simp)
    obtain ⟨records, isAll, all, parts, every⟩ :=
      ih (fun other member => writes other (by simp [member])) rest
    have noted : notedForAll (command :: queue) (reply :: others) =
        notedFor command reply ++ notedForAll queue others := rfl
    cases isError : reply.isError with
    | true =>
      rw [refused isError] at parts every
      have nothing : notedFor command reply = [] := by rw [notedFor, if_pos isError]
      refine ⟨records, by rw [noted, nothing, isAll]; rfl, all, fun kept => ?_,
        fun done short => ?_⟩
      · obtain ⟨done, short, same⟩ := parts kept
        refine ⟨done + 1, Nat.succ_le_succ short, ?_⟩
        rw [same, List.take_succ_cons, carryAll, carryAll, List.foldl_cons, refused isError]
      · cases done with
        | zero => exact ⟨0, rfl⟩
        | succ done =>
          obtain ⟨kept, same⟩ := every done (Nat.le_of_succ_le_succ short)
          refine ⟨kept, ?_⟩
          rw [same, List.take_succ_cons, carryAll, carryAll, List.foldl_cons, refused isError]
    | false =>
      have one : notedFor command reply = [asCommand (command.name :: command.args)] := by
        simp only [notedFor, isError, writtenDown, isRecorded, Bool.false_eq_true, if_false,
          if_true]
        rfl
      refine ⟨(command.name :: command.args) :: records, by rw [noted, one, isAll]; rfl,
        List.forall_mem_cons.mpr ⟨admitted.replayable isRecorded, all⟩, fun kept => ?_,
        fun done short => ?_⟩
      · cases kept with
        | zero => exact ⟨0, Nat.zero_le _, rfl⟩
        | succ kept =>
          obtain ⟨done, short, same⟩ := parts kept
          refine ⟨done + 1, Nat.succ_le_succ short, ?_⟩
          rw [List.take_succ_cons, List.foldl_cons, admitted.carryWords, same]
          rfl
      · cases done with
        | zero => exact ⟨0, rfl⟩
        | succ done =>
          obtain ⟨kept, same⟩ := every done (Nat.le_of_succ_le_succ short)
          refine ⟨kept + 1, ?_⟩
          rw [List.take_succ_cons, List.foldl_cons, admitted.carryWords, same]
          rfl

/-- A server that comes up over a log holds this, whatever the time. -/
def ComesUpWith (server : Server) (log : Bytes) (space : Keyspace) : Prop :=
  ∀ later : Nat → Env, ∃ commands used after replayed, Aof.recorded log = .ok commands ∧
    (replay { server with recording := false } {} 0 commands).exec machine later 0
      { log := log } = .done (used, after) replayed ∧
    after.store.Settled ∧ after.store.contents = space

theorem comesUpWith_of_recorded {log : Bytes} {records : List (List Bytes)}
    (replayable : ∀ words ∈ records, Replayable words)
    (readBack : Aof.recorded log = .ok (records.map asCommand)) :
    ComesUpWith server log (rebuilt records) := by
  intro later
  have ensures := @replay_ensures _ Terms.total { server with recording := false } {}
    { log := log } records replayable ⟨rfl, rfl, rfl⟩ State.settled_empty 0
  obtain ⟨count, after, replayed, ends, settled, contents⟩ := ensures.exec_total later 0
  refine ⟨_, count, after, replayed, readBack, ends, settled, ?_⟩
  rw [contents]
  rfl

theorem rebuilt_append_take (before records : List (List Bytes)) (kept : Nat) :
    rebuilt (before ++ records.take kept) =
      (records.take kept).foldl (fun space words => carryWords ⟨0, 0⟩ words space)
        (rebuilt before) := by
  rw [rebuilt, List.foldl_append]
  rfl

/-- A server stopped in the middle of `EXEC` leaves in its log what was there before and the
records of a first part of the queue, each whole, and may leave any first part of it.  If the
commands mean the same at any time, it comes back up with what that part of the queue did. -/
theorem exec_recovered_in_part (server : Server) (recording : server.recording) (client : Client)
    (queue : List Command) (before : List (List Bytes)) (world : World)
    (isLog : world.log = encodeAll (before.map asCommand))
    (sendable : ∀ words ∈ before, Sendable words)
    (queueSendable : ∀ command ∈ queue, Sendable (command.name :: command.args))
    (supply : Nat → Env) (appends : ∀ n, (supply n).append = none) (count : Nat) :
    ∃ replies, replies.length ≤ queue.length ∧
      (∀ last replied, (execute server client [] queue).exec machine supply count world =
        .done last replied → replied.1 = .array replies ∧ replies.length = queue.length) ∧
      (∀ calls part, ∃ kept,
        Aof.recorded (stoppedLog supply part (execute server client [] queue) calls count world) =
          .ok (before.map asCommand ++ (notedForAll queue replies).take kept)) ∧
      (∀ kept, ∃ calls part,
        Aof.recorded (stoppedLog supply part (execute server client [] queue) calls count world) =
          .ok (before.map asCommand ++ (notedForAll queue replies).take kept)) ∧
      (Writes queue → Recorded before world →
        (∀ calls part, ∃ done ≤ queue.length, ComesUpWith server
          (stoppedLog supply part (execute server client [] queue) calls count world)
          (carryAll (queue.take done) world.store.contents)) ∧
        ∀ done ≤ queue.length, ∃ calls part, ComesUpWith server
          (stoppedLog supply part (execute server client [] queue) calls count world)
          (carryAll (queue.take done) world.store.contents)) := by
  obtain ⟨replies, short, made, answered⟩ :=
    @execute_noted _ supply server appends recording client queue [] count world
  obtain ⟨records, isNoted, others⟩ := sendable_of_noted queueSendable replies
  -- every stop reads back as some first part of the records, and every first part is read back
  have cutOff (calls part : Nat) : ∃ kept,
      Aof.recorded (stoppedLog supply part (execute server client [] queue) calls count world) =
        .ok (before.map asCommand ++ (notedForAll queue replies).take kept) := by
    obtain ⟨cut, isCut⟩ :=
      exists_stoppedLog_eq appends (execute server client [] queue) calls part count world
    rw [isCut, made, isNoted, isLog]
    exact recorded_cut_after sendable others cut
  have anywhere (kept : Nat) : ∃ calls part,
      Aof.recorded (stoppedLog supply part (execute server client [] queue) calls count world) =
        .ok (before.map asCommand ++ (notedForAll queue replies).take kept) := by
    obtain ⟨cut, isCut⟩ := recorded_kept sendable others kept
    obtain ⟨calls, part, isStop⟩ :=
      exists_stop appends (execute server client [] queue) cut count world
    refine ⟨calls, part, ?_⟩
    rw [isStop, made, isNoted, isLog]
    exact isCut
  refine ⟨replies, short, answered, cutOff, anywhere, fun writes recorded => ?_⟩
  obtain ⟨last, replied, told, ends, isArray, isTold⟩ :=
    @execute_told _ supply server queue writes client [] count world recording appends
      recorded.settled
  obtain rfl : replies = told := by
    simpa [isArray] using (answered last replied ends).1.symm
  obtain ⟨records, isNoted, replayable, parts, every⟩ := isTold.exists_part writes
  have comesUp {log : Bytes} {kept : Nat} {space : Keyspace}
      (readBack : Aof.recorded log =
        .ok (before.map asCommand ++ (notedForAll queue replies).take kept))
      (carried : (records.take kept).foldl (fun space words => carryWords ⟨0, 0⟩ words space)
        world.store.contents = space) : ComesUpWith server log space := by
    rw [isNoted, ← List.map_take, ← List.map_append] at readBack
    rw [← carried, recorded.contents, ← rebuilt_append_take]
    refine comesUpWith_of_recorded (List.forall_mem_append.mpr ⟨recorded.replayable, ?_⟩) readBack
    exact fun words member => replayable words (List.mem_of_mem_take member)
  refine ⟨fun calls part => ?_, fun done within => ?_⟩
  · obtain ⟨kept, readBack⟩ := cutOff calls part
    obtain ⟨done, within, carried⟩ := parts kept
    exact ⟨done, within, comesUp readBack carried⟩
  · obtain ⟨kept, carried⟩ := every done within
    obtain ⟨calls, part, readBack⟩ := anywhere kept
    exact ⟨calls, part, comesUp readBack carried⟩

end

/-- `SET a 1` and `SET b 2`, waiting for `EXEC`. -/
def twoWrites : List Command :=
  [⟨"SET", utf8 "SET", [[97], [49]]⟩, ⟨"SET", utf8 "SET", [[98], [50]]⟩]

theorem twoWrites_writes : @Writes .ascii twoWrites := by
  let _ := Platform.ascii
  have write {command : Command} (isSet : command.uppercased = "SET")
      (small : Sendable (command.name :: command.args))
      (spelled : Command.parse command.asSent = .ok command)
      (bare : command.args.length = 2) : command.Admitted := by
    refine ⟨small, spelled, ?_, fun named => ?_⟩
    · rintro ⟨-, _, _, options, _, args, expiry⟩
      rw [args] at bare
      obtain rfl : options = [] := by simpa using bare
      cases expiry
    · have isXadd := named.1
      rw [isSet] at isXadd
      exact absurd isXadd (by decide)
  have small (key value : UInt8) : Sendable [utf8 "SET", [key], [value]] := by
    refine ⟨by simp, Nat.le_of_ble_eq_true rfl, ?_⟩
    simp only [List.forall_mem_cons, List.length_singleton]
    exact ⟨by decide, by decide, by decide, by simp⟩
  intro command member
  simp only [twoWrites, List.mem_cons, List.not_mem_nil, or_false] at member
  rcases member with rfl | rfl
  · exact ⟨write rfl (small 97 49) rfl rfl, rfl⟩
  · exact ⟨write rfl (small 98 50) rfl rfl, rfl⟩

/-- Of two writes, the first may be all that is left. -/
theorem exec_recovered_in_part_first :
    ∃ calls part, @ComesUpWith .ascii {}
      (stoppedLog (fun _ => {}) part (@execute .ascii {} {} [] twoWrites) calls 0 {})
      (@carryAll .ascii (twoWrites.take 1) (World.store {}).contents) := by
  have sendable : ∀ command ∈ twoWrites, Sendable (command.name :: command.args) :=
    fun command member => @Command.Admitted.sendable .ascii _ (twoWrites_writes command member).1
  obtain ⟨replies, -, -, -, -, parts⟩ := @exec_recovered_in_part .ascii {} rfl {} twoWrites [] {}
    rfl (by simp) sendable (fun _ => {}) (fun _ => rfl) 0
  have empty : @Recorded .ascii [] {} :=
    @Recorded.mk .ascii _ _ State.settled_empty rfl (by simp) (by funext key; rfl)
  exact (parts twoWrites_writes empty).2 1 (by decide)

/-- A server stopped between two appends of one `EXEC` comes back up with one write of two. -/
theorem exec_recovered_half :
    ∃ commands used after replayed,
      Aof.recorded (stoppedLog (fun _ => {}) 0 (@execute .ascii {} {} [] twoWrites) 4 0 {}) =
        .ok commands ∧
      (@replay .ascii { recording := false } {} 0 commands).exec machine (fun _ => {}) 0
        { log := stoppedLog (fun _ => {}) 0 (@execute .ascii {} {} [] twoWrites) 4 0 {} } =
          .done (used, after) replayed ∧
      (after.store.live 0 [97]).isSome = true ∧ (after.store.live 0 [98]).isSome = false :=
  ⟨_, _, _, _, rfl, rfl, by decide +kernel, by decide +kernel⟩

end RedisServer
