import RedisServer.Lib.Run
import RedisServer.Recovery.Sequential
import RedisServer.Commands.Passing
import RedisServer.Server.Following

/-!
# What a replica misses when an append fails

A command whose append fails has already changed the store, and is answered with an error
before it is passed on.  A replica that has followed from the start holds what its master
holds as long as no append fails for a command that changed something.
-/

namespace RedisServer

variable {world : World} {told : Keyspace} {words : List Bytes} {call : Call} {service : Service}

/-! ## Appends that fail for nothing -/

/-- The keyspace the last append was made for, or the one it started from. -/
def toldBy {α : Type} (supply : Nat → Env) : Prog α → Nat → World → Keyspace → Keyspace
  | .ret _, _, _, told => told
  | .call request resume, count, world, told =>
    match machine.perform (supply count) world request with
    | .done after reply =>
      toldBy supply (resume reply) (count + 1) after
        (if request.OnLog then world.store.contents else told)
    | _ => told

/-- An append fails only when the store holds what it held at the last one, or what it
started from. -/
def FailsIdly {α : Type} (supply : Nat → Env) : Prog α → Nat → World → Keyspace → Prop
  | .ret _, _, _, _ => True
  | .call request resume, count, world, told =>
    match machine.perform (supply count) world request with
    | .done after reply =>
      (request.OnLog = true → (supply count).append ≠ none → world.store.contents = told) ∧
        FailsIdly supply (resume reply) (count + 1) after
          (if request.OnLog then world.store.contents else told)
    | _ => True

section

variable {α β : Type} {supply : Nat → Env}

theorem FailsIdly.bind {program : Prog α} {next : α → Prog β} {count : Nat}
    (idly : FailsIdly supply (program >>= next) count world told) :
    FailsIdly supply program count world told ∧
      ∀ last value, program.exec machine supply count world = .done last value →
        FailsIdly supply (next value) last.1 last.2 (toldBy supply program count world told) := by
  induction program generalizing count world told with
  | ret value =>
    refine ⟨True.intro, fun last value ends => ?_⟩
    cases ends
    exact idly
  | call request resume ih =>
    rw [Program.call_bind, FailsIdly] at idly
    rw [FailsIdly, toldBy]
    cases performed : machine.perform (supply count) world request with
    | stuck =>
      refine ⟨True.intro, fun last value ends => ?_⟩
      simp [Program.exec_call, performed] at ends
    | panicked after =>
      refine ⟨True.intro, fun last value ends => ?_⟩
      simp [Program.exec_call, performed] at ends
    | done after reply =>
      rw [performed] at idly
      obtain ⟨here, later⟩ := ih reply idly.2
      refine ⟨⟨idly.1, here⟩, fun last value ends => ?_⟩
      rw [Program.exec_call_done performed] at ends
      exact later last value ends

theorem toldBy_bind {program : Prog α} {next : α → Prog β} {count : Nat} {last : Nat × World}
    {value : α} (ends : program.exec machine supply count world = .done last value) :
    toldBy supply (program >>= next) count world told =
      toldBy supply (next value) last.1 last.2 (toldBy supply program count world told) := by
  induction program generalizing count world told with
  | ret value =>
    cases ends
    rfl
  | call request resume ih =>
    rw [Program.exec_call] at ends
    rw [Program.call_bind, toldBy, toldBy]
    cases performed : machine.perform (supply count) world request with
    | stuck | panicked _ => simp [performed] at ends
    | done after reply =>
      rw [performed] at ends
      exact ih reply ends

/-- A program that makes no append leaves what was told last as it was. -/
theorem toldBy_eq {program : Prog α} (makes : program.Makes fun call : Call => call.OnLog = false)
    (count : Nat) (world : World) (told : Keyspace) :
    toldBy supply program count world told = told := by
  induction program generalizing count world with
  | ret value => rfl
  | call request resume ih =>
    rw [toldBy]
    cases machine.perform (supply count) world request with
    | stuck => rfl
    | panicked after => rfl
    | done after reply =>
      simp only [makes.1, Bool.false_eq_true, if_false]
      exact ih reply (makes.2 reply) (count + 1) after

end

/-! ## What a replica has been sent -/

/-- A name that is another but for the case of its letters is the same in capitals. -/
theorem Platform.toUppercase_eqIgnoreAsciiCase [Platform] {bytes : Bytes} {spelled name : String}
    (ascii : ∀ byte ∈ utf8 name, byte < 128) (same : eqIgnoreAsciiCase bytes (utf8 name))
    (read : text bytes = some spelled) :
    (Platform.toUppercase spelled).toList =
      ((utf8 name).map eqIgnoreAsciiCase.lower).map fun byte =>
        (Char.ofNat byte.toNat).toUpper := by
  have letter : ∀ byte : UInt8, eqIgnoreAsciiCase.lower byte < 128 → byte < 128 ∧
      (Char.ofNat byte.toNat).val.toUInt8 = byte ∧ (Char.ofNat byte.toNat).val < 128 ∧
        (Char.ofNat byte.toNat).toUpper =
          (Char.ofNat (eqIgnoreAsciiCase.lower byte).toNat).toUpper := by
    decide +kernel
  have low : ∀ byte : UInt8, byte < 128 → eqIgnoreAsciiCase.lower byte < 128 := by
    decide +kernel
  have alike : bytes.map eqIgnoreAsciiCase.lower = (utf8 name).map eqIgnoreAsciiCase.lower := by
    simpa [eqIgnoreAsciiCase] using same
  have small : ∀ byte ∈ bytes, eqIgnoreAsciiCase.lower byte < 128 := by
    intro byte member
    have found := List.mem_map_of_mem (f := eqIgnoreAsciiCase.lower) member
    rw [alike] at found
    obtain ⟨other, isOther, isSame⟩ := List.mem_map.mp found
    exact isSame ▸ low other (ascii other isOther)
  have allAscii : ∀ char ∈ bytes.map fun byte => Char.ofNat byte.toNat, char.val < 128 := by
    intro char member
    obtain ⟨byte, isByte, rfl⟩ := List.mem_map.mp member
    exact (letter byte (small byte isByte)).2.2.1
  have bytesEq : bytes = utf8 (String.ofList (bytes.map fun byte => Char.ofNat byte.toNat)) := by
    rw [utf8_ofList_ascii _ allAscii, List.map_map]
    refine (List.map_id _).symm.trans (List.map_congr_left fun byte member => ?_)
    exact (letter byte (small byte member)).2.1.symm
  rw [bytesEq, text_utf8, Option.some.injEq] at read
  subst read
  rw [Platform.toUppercase_ascii _ (by simpa using allAscii), ← alike, String.toList_ofList,
    List.map_map, List.map_map]
  exact List.map_congr_left fun byte member => (letter byte (small byte member)).2.2.2

variable [Platform]

/-- The first replica is this one, and has been sent commands that come to this. -/
def Informed (follower : Nat) (told : Keyspace) (world : World) : Prop :=
  ∃ (sent : List (List Bytes)) (replica : Replica) (others : List Replica),
    world.replicas = replica :: others ∧ replica.connection = follower ∧ replica.closed = false ∧
      replica.changes = sent.map (fun words => (asCommand words).encode) ∧
        (∀ words ∈ sent, Replayable words ∨ words = howFar) ∧ rebuilt sent = told

/-- The store holds this, and so does the first replica once it has taken in what it was
sent. -/
structure Abreast (follower : Nat) (told : Keyspace) (world : World) : Prop where
  settled : world.store.Settled
  contents : world.store.contents = told
  follows : Informed follower told world

variable {follower : Nat}

theorem carryWords_howFar (space : Keyspace) : carryWords ⟨0, 0⟩ howFar space = space := by
  have spelled : Command.parse (asCommand howFar) =
      .ok ⟨"REPLCONF", utf8 "REPLCONF", [utf8 "GETACK", utf8 "*"]⟩ :=
    Command.parse_capitals (by simp) (by decide) _
  rw [carryWords, spelled]
  rfl

/-- The replica is still the first once those that have hung up are left out. -/
theorem Informed.following (follows : Informed follower told world) {after : World}
    (same : after.replicas = world.following) : Informed follower told after := by
  obtain ⟨sent, replica, others, isFirst, isFollower, isOpen, changes, taken, isTold⟩ := follows
  refine ⟨sent, replica, others.filter fun replica => !replica.closed, ?_, isFollower, isOpen,
    changes, taken, isTold⟩
  rw [same, World.following, isFirst, List.filter_cons_of_pos (by simp [isOpen])]

theorem Informed.congr {after : World} (follows : Informed follower told world)
    (same : after.replicas = world.replicas) : Informed follower told after := by
  unfold Informed
  rw [same]
  exact follows

/-- What is passed on is queued for the replica. -/
theorem Informed.send (follows : Informed follower told world)
    (taken : Replayable words ∨ words = howFar) (env : Env) :
    ∃ after bytes, world.perform env (.send (asCommand words)) = .done after bytes ∧
      after.store = world.store ∧ Informed follower (carryWords ⟨0, 0⟩ words told) after := by
  obtain ⟨sent, replica, others, isFirst, isFollower, isOpen, changes, allTaken, isTold⟩ := follows
  have following : world.following = replica :: others.filter fun replica => !replica.closed := by
    rw [World.following, isFirst, List.filter_cons_of_pos (by simp [isOpen])]
  simp only [World.perform, following, List.isEmpty_cons, Bool.false_eq_true, if_false]
  refine ⟨_, _, rfl, rfl, sent ++ [words], _, _, rfl, isFollower, isOpen, ?_, ?_, ?_⟩
  · simp [changes]
  · exact List.forall_mem_append.mpr ⟨allTaken, by simpa using taken⟩
  · rw [rebuilt_append, isTold]

/-! ## Calls that change nothing a replica is told of -/

omit [Platform] in
/-- The calls that leave what the store holds alone and pass on nothing but the question how
far the replicas have got. -/
def Call.Mild : Call → Prop
  | .send command => command = asCommand howFar
  | call => call.Harmless

omit [Platform] in
theorem Call.Mild.harmless (mild : call.Mild) : call.Harmless := by
  cases call <;> first | exact mild | exact True.intro

omit [Platform] in
theorem Call.Mild.onLog (mild : call.Mild) : call.OnLog = false :=
  mild.harmless.onLog

omit [Platform] in
theorem Call.Waits.mild (waits : call.Waits) : call.Mild := by
  cases call <;> first | exact True.intro | exact waits.elim | exact waits

/-- The terms on which nothing is asked of a run that waits for ever. -/
def abreast (follower : Nat) (told : Keyspace) : Terms Env World :=
  ⟨fun _ => True, True, Abreast follower told⟩

variable {told : Keyspace} {world : World}

theorem Abreast.mild (holds : Abreast follower told world) (mild : call.Mild) (env : Env) :
    (world.perform env call).Meets (abreast follower told)
      fun after _ => Abreast follower told after := by
  refine .of_forall True.intro (fun last panicked => perform_panicked panicked ▸ holds)
    fun after reply performed => ?_
  obtain ⟨settled, same⟩ := holds.settled.call mild.harmless performed
  refine ⟨settled, same.trans holds.contents, ?_⟩
  have replicas := (perform_framed performed).replicas
  cases call with
  | send command =>
    obtain rfl : command = asCommand howFar := mild
    obtain ⟨later, bytes, isSent, -, follows⟩ := holds.follows.send (.inr rfl) env
    cases performed.symm.trans isSent
    rwa [carryWords_howFar] at follows
  | advance bytes =>
    cases performed
    exact holds.follows.congr rfl
  | count | caughtUpTo offset =>
    cases performed
    exact holds.follows.following rfl
  | _ => exact holds.follows.congr (replicas rfl).1

theorem mild_ensures {α : Type} {program : Prog α} {post : α → Prop}
    (makes : program.Makes Call.Mild) (returns : program.Returns post)
    (holds : Abreast follower told world) :
    program.Ensures machine (abreast follower told)
      (fun after value => Abreast follower told after ∧ post value) world :=
  .of_makes (fun env _ _ _ mild holds => Abreast.mild holds mild env) makes returns holds

/-- A command that is not recorded makes no other calls. -/
theorem runAgainst_mild {command : Command} (unrecorded : recordedAsSent command.uppercased = false)
    (notBlpop : command.uppercased ≠ "BLPOP") (server : Server) (client : Client) :
    (runAgainst server client command).Makes Call.Mild := by
  by_cases isWait : command.uppercased = "WAIT"
  · rw [runAgainst_wait isWait]
    exact ((waitProgram_waits _ _).mono fun _ => Call.Waits.mild).map _
  · refine ((runAgainst_harmless unrecorded notBlpop server client).and
      (runAgainst_apart isWait server client)).mono fun call both => ?_
    cases call with
    | send command => exact both.2.elim
    | _ => exact both.1

/-! ## Whole programs -/

variable {supply : Nat → Env} {server : Server} {client : Client} {command : Command}
  {count : Nat}

/-- A run of a program leaves the replica abreast of the store, at what the last append was
made for. -/
def KeepsUp {α : Type} (follower : Nat) (supply : Nat → Env) (post : α → Prop)
    (program : Prog α) (count : Nat) (world : World) (told : Keyspace) : Prop :=
  match program.exec machine supply count world with
  | .stuck => True
  | .panicked last => ∃ told, Abreast follower told last.2
  | .done last value =>
    Abreast follower (toldBy supply program count world told) last.2 ∧ post value

theorem KeepsUp.bind {α β : Type} {post : α → Prop} {final : β → Prop} {program : Prog α}
    {next : α → Prog β} (first : KeepsUp follower supply post program count world told)
    (rest : ∀ last value, program.exec machine supply count world = .done last value →
      post value → Abreast follower (toldBy supply program count world told) last.2 →
        KeepsUp follower supply final (next value) last.1 last.2
          (toldBy supply program count world told)) :
    KeepsUp follower supply final (program >>= next) count world told := by
  unfold KeepsUp at first ⊢
  rw [Program.exec_bind]
  cases ends : program.exec machine supply count world with
  | stuck => exact True.intro
  | panicked last =>
    rw [ends] at first
    exact first
  | done last value =>
    rw [ends] at first
    rw [toldBy_bind ends]
    exact rest last value ends first.2 first.1

theorem KeepsUp.mono {α : Type} {post wider : α → Prop} {program : Prog α}
    (keeps : KeepsUp follower supply post program count world told)
    (included : ∀ value, post value → wider value) :
    KeepsUp follower supply wider program count world told := by
  unfold KeepsUp at keeps ⊢
  split at keeps
  · exact True.intro
  · exact keeps
  · exact ⟨keeps.1, included _ keeps.2⟩

theorem KeepsUp.map {α β : Type} {post : β → Prop} {program : Prog α} {image : α → β}
    (keeps : KeepsUp follower supply (fun value => post (image value)) program count world told) :
    KeepsUp follower supply post (image <$> program) count world told := by
  rw [Program.map_eq_bind]
  exact keeps.bind fun _ _ _ holds abreast => ⟨abreast, holds⟩

theorem KeepsUp.ret {α : Type} {post : α → Prop} {value : α} (holds : Abreast follower told world)
    (isPost : post value) : KeepsUp follower supply post (.ret value) count world told :=
  ⟨holds, isPost⟩

theorem keepsUp_mild {α : Type} {program : Prog α} {post : α → Prop}
    (makes : program.Makes Call.Mild) (returns : program.Returns post)
    (holds : Abreast follower told world) :
    KeepsUp follower supply post program count world told := by
  have ends := @Program.Ensures.exec _ _ _ _ _ _ _ _ _ (mild_ensures makes returns holds) supply
    (fun _ => True.intro) count
  have same := @toldBy_eq _ supply program (makes.mono fun _ mild => mild.onLog) count world told
  unfold KeepsUp
  rw [same]
  cases ran : program.exec machine supply count world with
  | stuck => exact True.intro
  | panicked last =>
    rw [ran] at ends
    exact ⟨told, ends⟩
  | done last value =>
    rw [ran] at ends
    exact ends

theorem passOn_abreast (master : server.config.replicaof = none) {words : List Bytes}
    (replayable : Replayable words) (replied : Value × Client) (settled : world.store.Settled)
    (contents : world.store.contents = carryWords ⟨0, 0⟩ words told)
    (follows : Informed follower told world) :
    ∃ last, (passOn server (asCommand words) replied).exec machine supply count world =
        .done last replied ∧ Abreast follower (carryWords ⟨0, 0⟩ words told) last.2 := by
  obtain ⟨after, bytes, performed, sameStore, followed⟩ :=
    follows.send (.inl replayable) (supply count)
  simp only [passOn, master, Option.isNone_none, if_true]
  rw [Program.exec_call_done performed]
  refine ⟨_, rfl, ?_, ?_, followed.congr rfl⟩
  · exact sameStore ▸ settled
  · exact sameStore ▸ contents

omit [Platform] in
theorem passOn_onLog (server : Server) (written : Value) (replied : Value × Client) :
    (passOn server written replied).Makes fun call : Call => call.OnLog = false := by
  unfold passOn
  split
  · exact ⟨rfl, fun _ => ⟨rfl, fun _ => True.intro⟩⟩
  · exact True.intro

/-- A command that was carried out is passed on, unless its append fails. -/
theorem noteDown_abreast (master : server.config.replicaof = none) (recording : server.recording)
    (replayable : Replayable words) {replied : Value × Client} (settled : world.store.Settled)
    (contents : world.store.contents = carryWords ⟨0, 0⟩ words told)
    (follows : Informed follower told world)
    (idly : FailsIdly supply (noteDown server (asCommand words) replied) count world told) :
    KeepsUp follower supply (fun result => result.2 = replied.2)
      (noteDown server (asCommand words) replied) count world told := by
  simp only [noteDown, recording, if_true] at idly ⊢
  cases appended : (supply count).append with
  | none =>
    have performed : machine.perform (supply count) world (.record (asCommand words)) =
        .done { world with log := world.log ++ (asCommand words).encode } true := by
      simp only [machine, World.perform, appended]
    obtain ⟨last, ends, abreast⟩ := @passOn_abreast _ follower told
      { world with log := world.log ++ (asCommand words).encode } supply server (count + 1) master
      words replayable replied settled contents (follows.congr rfl)
    unfold KeepsUp
    rw [Program.exec_call_done performed, toldBy, performed]
    simp only [if_true, ends]
    rw [toldBy_eq (passOn_onLog _ _ _)]
    exact ⟨contents.symm ▸ abreast, True.intro⟩
  | some written =>
    have performed : machine.perform (supply count) world (.record (asCommand words)) =
        .done { world with log := world.log ++ (asCommand words).encode.take written } false := by
      simp only [machine, World.perform, appended]
    rw [FailsIdly, performed] at idly
    have unchanged := idly.1 rfl (by simp [appended])
    unfold KeepsUp
    rw [Program.exec_call_done performed, toldBy, performed]
    have still : Informed follower world.store.contents world := unchanged ▸ follows
    exact ⟨⟨settled, rfl, still.congr rfl⟩, rfl⟩

/-! ## Any command -/

/-- Running a command makes no append: that comes afterwards. -/
theorem runAgainst_onLog (server : Server) (client : Client) (command : Command) :
    (runAgainst server client command).Makes fun call : Call => call.OnLog = false := by
  by_cases isWait : command.uppercased = "WAIT"
  · refine (runAgainst_mild ?_ ?_ server client).mono fun call mild => mild.onLog
    · rw [isWait]
      rfl
    · rw [isWait]
      decide
  · refine (runAgainst_apart isWait server client).mono fun call apart => ?_
    cases call <;> first | rfl | exact apart.elim

/-- A command keeps up if it does once it has been run. -/
theorem dispatch_of_exec {post : Value × Client → Prop} {last : Nat × World}
    {replied : Value × Client}
    (runs : (runAgainst server client command).exec machine supply count world =
      .done last replied)
    (idly : FailsIdly supply (dispatch server client command) count world told)
    (rest : FailsIdly supply (afterwards server command replied) last.1 last.2 told →
      KeepsUp follower supply post (afterwards server command replied) last.1 last.2 told) :
    KeepsUp follower supply post (dispatch server client command) count world told := by
  have sameTold := @toldBy_eq _ supply _ (runAgainst_onLog server client command) count world told
  unfold dispatch at idly ⊢
  rw [Program.bind_eq] at idly ⊢
  have later := idly.bind.2 _ _ runs
  rw [sameTold] at later
  unfold KeepsUp
  rw [Program.exec_bind, runs, toldBy_bind runs, sameTold]
  exact rest later

section

variable (master : server.config.replicaof = none) (recording : server.recording)

include master recording

/-- A command recorded as it came in. -/
theorem dispatch_recorded_keepsUp (admitted : command.Admitted)
    (isRecorded : recordedAsSent command.uppercased) (holds : Abreast follower told world)
    (idly : FailsIdly supply (dispatch server client command) count world told) :
    KeepsUp follower supply (fun replied => replied.2 = client)
      (dispatch server client command) count world told := by
  have ensures := @runAgainst_ensures _ Terms.total server command client world isRecorded
    admitted.plain holds.settled
  obtain ⟨used, after, replied, runs, ran⟩ := ensures.exec_total supply count
  have follows : Informed follower told after := by
    rw [ran.world]
    exact holds.follows.congr rfl
  refine dispatch_of_exec runs idly fun later => ?_
  unfold afterwards at later ⊢
  split
  · rename_i isError
    refine .ret ⟨ran.settled, ?_, follows⟩ ran.client
    rw [ran.refused isError, holds.contents]
  · rename_i noError
    simp only [noError, writtenDown, isRecorded, if_true, Bool.false_eq_true, if_false] at later ⊢
    refine (noteDown_abreast master recording (admitted.replayable isRecorded) ran.settled
      ?_ follows later).mono fun result same => same.trans ran.client
    rw [admitted.carryWords, ran.carried, holds.contents]

/-- A blocking pop is passed on as the pop it came to. -/
theorem dispatch_blpop_keepsUp (admitted : command.Admitted)
    (isBlpop : command.uppercased = "BLPOP") (holds : Abreast follower told world)
    (idly : FailsIdly supply (dispatch server client command) count world told) :
    KeepsUp follower supply (fun replied => replied.2 = client)
      (dispatch server client command) count world told := by
  have unrecorded : recordedAsSent command.uppercased = false := by
    rw [isBlpop]
    rfl
  have pops := @Program.Ensures.exec _ _ _ _ _ _ _ _ _
    (@blpopProgram_pops world (abreast follower told) command.args holds.settled True.intro holds)
    supply (fun _ => True.intro) count
  have runs : (runAgainst server client command).exec machine supply count world =
      ((blpopProgram command.args).exec machine supply count world).map fun reply =>
        (reply, client) := by
    rw [runAgainst_blpop isBlpop, Client.kept, Program.exec_map]
  cases ends : (blpopProgram command.args).exec machine supply count world with
  | stuck =>
    rw [ends] at runs
    unfold KeepsUp dispatch
    rw [Program.bind_eq, Program.exec_bind, runs]
    exact True.intro
  | panicked last =>
    rw [ends] at runs pops
    unfold KeepsUp dispatch
    rw [Program.bind_eq, Program.exec_bind, runs]
    exact ⟨told, pops⟩
  | done last reply =>
    rw [ends] at runs pops
    refine dispatch_of_exec runs idly fun later => ?_
    obtain ⟨same, settled, outcome⟩ := pops
    have follows : Informed follower told last.2 := by
      rw [same]
      exact holds.follows.congr rfl
    rcases outcome with ⟨unchanged, nothing⟩ | ⟨key, element, rest, named, replied, carried⟩
    · rw [afterwards_unwritten]
      · exact .ret ⟨settled, unchanged.trans holds.contents, follows⟩ rfl
      · rcases nothing with isError | rfl
        · exact .inr isError
        · simp [writtenDown, unrecorded]
    · have small : key.length ≤ maxBulkLength := admitted.sendable.small key (by simp [named])
      simp only [afterwards, replied, Lists.popped, Value.isError, writtenDown, isBlpop,
        named, if_true, Bool.false_eq_true, if_false] at later ⊢
      refine noteDown_abreast master recording (replayable_lpopOf small) settled ?_ follows later
      rw [carryWords_lpop, carried, holds.contents]

/-- Whatever command is dispatched, the replica keeps up. -/
theorem dispatch_keepsUp (admitted : command.Admitted) (holds : Abreast follower told world)
    (idly : FailsIdly supply (dispatch server client command) count world told) :
    KeepsUp follower supply
      (fun replied => replied.2.transaction.queued = client.transaction.queued)
      (dispatch server client command) count world told := by
  cases isRecorded : recordedAsSent command.uppercased with
  | true =>
    exact (dispatch_recorded_keepsUp master recording admitted isRecorded holds idly).mono
      fun _ same => same ▸ rfl
  | false =>
    by_cases isBlpop : command.uppercased = "BLPOP"
    · exact (dispatch_blpop_keepsUp master recording admitted isBlpop holds idly).mono
        fun _ same => same ▸ rfl
    · refine KeepsUp.bind (keepsUp_mild (runAgainst_mild isRecorded isBlpop server client)
        (runAgainst_queued server client command) holds) fun last replied _ same abreast => ?_
      rw [afterwards_unwritten (.inl (by simp [writtenDown, isRecorded, isBlpop]))]
      exact .ret abreast same

theorem execute_keepsUp {queued : List Command}
    (admitted : ∀ command ∈ queued, command.Admitted) (replies : List Value)
    (holds : Abreast follower told world)
    (idly : FailsIdly supply (execute server client replies queued) count world told) :
    KeepsUp follower supply
      (fun replied => replied.2.transaction.queued = client.transaction.queued)
      (execute server client replies queued) count world told := by
  induction queued generalizing client replies world told count with
  | nil => exact .ret holds rfl
  | cons command queued ih =>
    have idle := FailsIdly.bind idly
    refine KeepsUp.bind (dispatch_keepsUp master recording (admitted command (by simp)) holds
      idle.1) fun last replied ends same abreast => ?_
    exact (ih (fun other member => admitted other (by simp [member])) _ abreast
      (idle.2 last replied ends)).mono fun _ still => still.trans same

theorem carryOut_keepsUp (admitted : command.Admitted) (queued : client.transaction.Admitted)
    (holds : Abreast follower told world)
    (idly : FailsIdly supply (carryOut server client command) count world told) :
    KeepsUp follower supply (fun replied => replied.2.transaction.Admitted)
      (carryOut server client command) count world told := by
  unfold carryOut at idly ⊢
  split
  · rename_i unsteered
    rw [unsteered] at idly
    exact (dispatch_keepsUp master recording admitted holds idly).mono fun _ same queue isQueue =>
      queued queue (same ▸ isQueue)
  · rename_i steered isSteered
    rw [isSteered] at idly
    have idle := FailsIdly.bind idly
    have mild : steered.Makes Call.Mild :=
      (Transactions.steer_watches isSteered).mono fun call watches => by
        cases call with
        | store call => cases call <;> first | exact True.intro | exact watches.elim
        | _ => exact watches.elim
    refine KeepsUp.bind (keepsUp_mild mild (Transactions.steer_returns queued isSteered) holds)
      fun last result ends steers abreast => ?_
    have later := idle.2 last result ends
    obtain ⟨_ | queue, transaction⟩ := result
    · exact .ret abreast steers.1
    · exact (execute_keepsUp master recording (steers.2 queue rfl) [] abreast later).mono
        fun _ same queue isQueue => steers.1 queue (same ▸ isQueue)

theorem run_keepsUp {found : Value} (received : Received found)
    (plain : ∀ command, Command.parse found = .ok command → command.Plain)
    (queued : client.transaction.Admitted) (holds : Abreast follower told world)
    (idly : FailsIdly supply (run server client found) count world told) :
    KeepsUp follower supply (fun replied => replied.2.transaction.Admitted)
      (run server client found) count world told := by
  unfold run at idly ⊢
  split
  · exact .ret holds queued
  · rename_i command spelled
    have admitted := admitted_of_received received spelled (plain command spelled)
    rw [spelled] at idly
    dsimp only at idly
    unfold runCommand at idly ⊢
    split
    · exact .ret holds queued
    · rename_i isLetIn
      rw [if_neg isLetIn] at idly
      split
      · exact .ret holds queued
      · rename_i isAllowed
        rw [if_neg isAllowed] at idly
        split
        · rename_i queue _ isQueue
          refine .ret holds fun other isOther => ?_
          cases isOther
          intro other member
          rcases List.mem_append.mp member with old | new
          · exact queued queue isQueue other old
          · rw [List.mem_singleton.mp new]
            exact admitted
        · rename_i carriedOut
          refine .map (carryOut_keepsUp master recording admitted queued holds ?_)
          split at idly
          · rename_i isSteering isQueue
            exact absurd isQueue (by simpa using carriedOut _ isSteering)
          · exact (FailsIdly.bind idly).1

end

/-! ## What a replica makes of it -/

/-- A command that is recorded is none that asks how far a replica has got. -/
theorem not_asksHowFar {command : Command} (parsed : Command.parse (asCommand words) = .ok command)
    (recorded : recordedAsSent command.uppercased) : asksHowFar (asCommand words) = false := by
  match words with
  | [] => rfl
  | [_] => rfl
  | name :: option :: args =>
    refine Bool.eq_false_iff.mpr fun asks => ?_
    obtain ⟨named, -⟩ := Bool.and_eq_true_iff.mp asks
    rw [Command.parse, intoParts_asCommand] at parsed
    dsimp only at parsed
    split at parsed
    · cases parsed
    · rename_i spelled read
      cases parsed
      have capitals := Platform.toUppercase_eqIgnoreAsciiCase (by decide +kernel) named read
      have isName : Platform.toUppercase spelled = "REPLCONF" :=
        String.toList_inj.mp (capitals.trans (by decide +kernel))
      rw [isName] at recorded
      cases recorded

omit [Platform] in
theorem Sendable.readable (sendable : Sendable words) :
    (asCommand words).Readable ∧ (asCommand words).depth ≤ maxDepth := by
  have each (words : List Bytes) (small : ∀ word ∈ words, word.length ≤ maxBulkLength) :
      ReadableAll (words.map Value.bulkString) ∧ depthAll (words.map Value.bulkString) = 0 := by
    induction words with
    | nil => exact ⟨True.intro, rfl⟩
    | cons word words ih =>
      obtain ⟨readable, flat⟩ := ih fun other member => small other (by simp [member])
      exact ⟨⟨small word (by simp), readable⟩, by simp [depthAll, Value.depth, flat]⟩
  obtain ⟨readable, flat⟩ := each words sendable.small
  refine ⟨⟨by simpa using sendable.countable, readable⟩, ?_⟩
  simp [asCommand, Value.depth, flat, maxDepth]

omit [Platform] in
theorem readable_howFar : (asCommand howFar).Readable ∧ (asCommand howFar).depth ≤ maxDepth :=
  Sendable.readable ⟨by simp [howFar], by decide, by decide +kernel⟩

/-- A replica that takes in such commands carries them out one after the other. -/
theorem takeIn_sent {sent : List (List Bytes)}
    (taken : ∀ words ∈ sent, Replayable words ∨ words = howFar) (trusted : client.Trusted)
    (settled : world.store.Settled) (count : Nat) :
    ∃ last, (sent.map asCommand).foldlM (takeIn (carryOutOn server supply)) ((count, world), client)
        = some last ∧ last.1.2.store.Settled ∧
      last.1.2.store.contents =
        sent.foldl (fun space words => carryWords ⟨0, 0⟩ words space) world.store.contents := by
  induction sent generalizing world count with
  | nil => exact ⟨_, rfl, settled, rfl⟩
  | cons words sent ih =>
    have others : ∀ words ∈ sent, Replayable words ∨ words = howFar :=
      fun other member => taken other (by simp [member])
    rw [List.map_cons, List.foldlM_cons, List.foldl_cons]
    rcases taken words (by simp) with replayable | rfl
    · obtain ⟨used, after, replied, ends, same, afterSettled, carried⟩ :=
        (@run_replayable _ Terms.total server client world words replayable trusted
          settled).exec_total supply count
      have step : takeIn (carryOutOn server supply) ((count, world), client) (asCommand words) =
          some ((used, after), client) := by
        obtain ⟨command, parsed, recorded, -⟩ := replayable.command
        simp only [takeIn, not_asksHowFar parsed recorded, Bool.false_eq_true, if_false,
          carryOutOn, ends, same]
      rw [step, ← carried]
      exact ih others afterSettled used
    · have step : takeIn (carryOutOn server supply) ((count, world), client)
          (asCommand howFar) = some ((count, world), client) :=
        if_pos (by decide +kernel)
      rw [step, carryWords_howFar]
      exact ih others settled count

/-- However what was sent is cut into reads, a replica carries it out. -/
theorem keepUpAll_sent {sent : List (List Bytes)}
    (taken : ∀ words ∈ sent, Replayable words ∨ words = howFar) (settled : world.store.Settled)
    (start : Nat) {heard : Bytes} {reads : List Bytes}
    (stream : heard ++ reads.flatten = (sent.map fun words => (asCommand words).encode).flatten) :
    ∃ takenIn last, keepUpAll (carryOutOn server supply) start ((0, world), {}) heard reads =
        ⟨takenIn, some last, none⟩ ∧ last.1.2.store.Settled ∧
      last.1.2.store.contents =
        sent.foldl (fun space words => carryWords ⟨0, 0⟩ words space) world.store.contents := by
  obtain ⟨last, ends, stillSettled, contents⟩ := @takeIn_sent _ world supply server {} sent taken
    ⟨rfl, rfl, rfl⟩ settled 0
  refine ⟨_, last, @keepUpAll_commands _ _ start _ _ heard reads (sent.map asCommand) ?_ ?_ ends,
    stillSettled, contents⟩
  · intro command member
    obtain ⟨words, isWords, rfl⟩ := List.mem_map.mp member
    rcases taken words isWords with replayable | rfl
    · exact replayable.sendable.readable
    · exact readable_howFar
  · rw [stream, encodeAll_eq_flatMap, List.flatMap_map, List.flatMap_def]

/-! ## Whole runs -/

/-- The replica is abreast of what the store holds now. -/
def AbreastNow (follower : Nat) (world : World) : Prop :=
  Abreast follower world.store.contents world

theorem Abreast.now (abreast : Abreast follower told world) : AbreastNow follower world := by
  rw [AbreastNow, abreast.contents]
  exact abreast

theorem abreastNow_steadfast (follower : Nat) : Steadfast (AbreastNow follower) := by
  intro world after more sameStore _ grown abreast
  obtain ⟨sent, replica, others, isFirst, rest⟩ := abreast.follows
  unfold AbreastNow
  rw [sameStore]
  refine ⟨sameStore ▸ abreast.settled, by rw [sameStore], sent, replica, others ++ more, ?_, rest⟩
  rw [grown, isFirst, List.cons_append]

/-- An append fails during an event only if nothing has changed since the last. -/
def Service.FailsIdly (server : Server) (supply : Nat → Env) (here : Nat × Service) : Event → Prop
  | .command id found => ∀ connection, here.2.connections[id]? = some connection →
      RedisServer.FailsIdly supply (run server connection.client found) here.1 here.2.world
        here.2.world.store.contents
  | _ => True

namespace Service

/-- A server that nobody is connected to but a replica, which follows it from the start. -/
def followedBy (follower : Nat) : Service :=
  { world := { replicas := [{ connection := follower }] } }

theorem followedBy_abreast (follower : Nat) :
    (followedBy follower).Upholds (AbreastNow follower) where
  world := ⟨State.settled_empty, rfl, [], { connection := follower }, [], rfl, rfl, rfl, rfl,
    by simp, by funext key; rfl⟩
  queued id connection found := by simp [followedBy] at found

/-- As long as an append fails only for a command that has changed nothing, a replica that
followed from the start comes to the keys and values its master holds, however it is set up
and however what was queued for it is cut into reads. -/
theorem replica_abreast (server : Server) (master : server.config.replicaof = none)
    (recording : server.recording) (events : List Event)
    (received : ∀ id found, .command id found ∈ events → Received found)
    (plain : ∀ id found command, .command id found ∈ events →
      Command.parse found = .ok command → ¬ command.CarriesExpiry ∧ ¬ command.AsksForId)
    (supply : Nat → Env) (follower count : Nat) (service : Service)
    (idly : Run.Meets (Service.step server supply) (Service.FailsIdly server supply)
      (0, followedBy follower) events)
    (ran : Service.runAll server supply (0, followedBy follower) events = some (count, service)) :
    ∃ replica others, service.world.replicas = replica :: others ∧
      replica.connection = follower ∧
      ∀ (copy : Server) (later : Nat → Env) (start : Nat) (heard : Bytes) (reads : List Bytes),
        heard ++ reads.flatten = replica.changes.flatten →
        ∃ taken last, keepUpAll (carryOutOn copy later) start ((0, {}), {}) heard reads =
            ⟨taken, some last, none⟩ ∧
          ∀ now key, (last.1.2.store.live now key).map Entry.data =
            (service.world.store.live now key).map Entry.data := by
  have runs (here : Nat × Service) (id : Nat) (found : Value) (connection : Connection)
      (upholds : here.2.Upholds (AbreastNow follower))
      (meets : Service.FailsIdly server supply here (.command id found) ∧
        Event.Plain (.command id found))
      (isOpen : here.2.connections[id]? = some connection) :
      Upheld (AbreastNow follower)
        ((run server connection.client found).exec machine supply here.1 here.2.world) := by
    have keeps := run_keepsUp master recording meets.2.1 meets.2.2
      (upholds.queued id connection isOpen) upholds.world (meets.1 connection isOpen)
    unfold KeepsUp at keeps
    generalize (run server connection.client found).exec _ _ _ _ = outcome at keeps ⊢
    cases outcome with
    | stuck => exact True.intro
    | panicked last => exact keeps.elim fun _ still => still.now
    | done last replied => exact ⟨keeps.2, keeps.1.now⟩
  have holds : AbreastNow follower service.world := ((followedBy_abreast follower).runAll
    (abreastNow_steadfast follower) runs (idly.and_mem (plain_of_events received plain)) ran).world
  obtain ⟨sent, replica, others, isFirst, isFollower, -, changes, taken, isTold⟩ := holds.follows
  refine ⟨replica, others, isFirst, isFollower, fun copy later start heard reads stream => ?_⟩
  obtain ⟨takenIn, last, ends, settled, contents⟩ := @keepUpAll_sent _ {} later copy sent taken
    State.settled_empty start heard reads (by rw [stream, changes])
  refine ⟨takenIn, last, ends, fun now key => ?_⟩
  refine settled.undated.data_eq holds.settled.undated ?_ now key
  rw [contents, ← isTold]
  rfl

/-- A write that is recorded, and a pop from a list that is not there. -/
def idleRun : List Event :=
  [.connect 0, .command 0 (typed ["SET", "name", "one"]), .command 0 (typed ["LPOP", "list"])]

/-- Of the appends only that of the pop fails. -/
def idleSupply (count : Nat) : Env := if count = 5 then { append := some 3 } else {}

omit [Platform] in
theorem idleRun_idle :
    Run.Meets (@Service.step .ascii {} idleSupply) (@Service.FailsIdly .ascii {} idleSupply)
      (0, followedBy 1) idleRun := by
  refine ⟨True.intro, fun next stepped => ?_⟩
  cases stepped
  refine ⟨fun connection connected => ?_, fun next stepped => ?_⟩
  · cases connected
    exact ⟨fun _ _ => rfl, fun _ failed => absurd rfl failed, fun _ _ => rfl, fun _ _ => rfl,
      True.intro⟩
  · cases stepped
    refine ⟨fun connection connected => ?_, fun next stepped => True.intro⟩
    cases connected
    exact ⟨fun _ _ => rfl, fun _ _ => rfl, True.intro⟩

omit [Platform] in
theorem idleRun_plain (id : Nat) (found : Value) (command : Command)
    (member : .command id found ∈ idleRun)
    (spelled : @Command.parse .ascii found = .ok command) :
    ¬ @Command.CarriesExpiry .ascii command ∧ ¬ command.AsksForId := by
  suffices plain : @Command.Plain .ascii command by
    obtain ⟨undated, named⟩ := plain
    exact ⟨undated, named⟩
  simp only [idleRun, List.mem_cons, Event.command.injEq, reduceCtorEq, false_or,
    List.not_mem_nil, or_false] at member
  rcases member with ⟨-, rfl⟩ | ⟨-, rfl⟩ <;> cases spelled <;>
    exact @Command.plain_of_few .ascii _ (by decide +kernel) (by decide +kernel)

omit [Platform] in
/-- The replica is not told of the pop, and misses nothing. -/
theorem replica_abreast_idle : ∃ count service,
    @runAll .ascii {} idleSupply (0, followedBy 1) idleRun = some (count, service) ∧
      ∃ replica others, service.world.replicas = replica :: others ∧ replica.connection = 1 ∧
        ∃ taken last, keepUpAll (@carryOutOn .ascii {} fun _ => {}) 0 ((0, {}), {}) []
            replica.changes = ⟨taken, some last, none⟩ ∧
          ∀ now key, (last.1.2.store.live now key).map Entry.data =
            (service.world.store.live now key).map Entry.data := by
  have received (id : Nat) (found : Value) (member : .command id found ∈ idleRun) :
      Received found := by
    simp only [idleRun, List.mem_cons, Event.command.injEq, reduceCtorEq, false_or,
      List.not_mem_nil, or_false] at member
    rcases member with ⟨-, rfl⟩ | ⟨-, rfl⟩ <;>
      exact typed_received (by simp) (by decide) (by decide +kernel)
  have ends : (@runAll .ascii {} idleSupply (0, followedBy 1) idleRun).isSome := by
    decide +kernel
  obtain ⟨⟨count, service⟩, ran⟩ := Option.isSome_iff_exists.mp ends
  obtain ⟨replica, others, isFirst, isFollower, same⟩ := @replica_abreast .ascii {} rfl rfl idleRun
    received idleRun_plain idleSupply 1 count service idleRun_idle ran
  exact ⟨count, service, ran, replica, others, isFirst, isFollower,
    same {} (fun _ => {}) 0 [] replica.changes rfl⟩

omit [Platform] in
/-- A write whose append fails is held by the master and never gets to its replica. -/
theorem replica_misses : ∃ count service replica,
    @runAll .ascii {} (fun _ => { append := some 0 }) (0, followedBy 1)
        [.connect 0, .command 0 (typed ["SET", "name", "one"])] = some (count, service) ∧
      service.world.replicas = [replica] ∧ replica.connection = 1 ∧
      (service.world.store.live 0 (utf8 "name")).isSome = true ∧
      ∃ taken last, keepUpAll (@carryOutOn .ascii {} fun _ => {}) 0 ((0, {}), {}) []
          replica.changes = ⟨taken, some last, none⟩ ∧
        (last.1.2.store.live 0 (utf8 "name")).isSome = false :=
  ⟨_, _, _, rfl, rfl, rfl, by decide +kernel, _, _, rfl, rfl⟩

end Service

end RedisServer
