import RedisServer.Commands.Admission
import RedisServer.Concurrency.Pool
import RedisServer.Server.Frames

/-!
# Connections that have not been let in

A connection made once a password has been set is out until it tries a password that has
been given.  Until then it is answered with errors, and a run without its commands is the
same run for everyone else.
-/

namespace RedisServer

variable {what : Happening} {world after : World} {stage moved : Stage} {move : Move}
  {server : Server} {history : List Moment}

/-! ## Passwords given and tried -/

/-- Whether the password kept as this hash was taken on. -/
def Happening.adds (digest : String) : Happening → Bool
  | .called _ (.addPassword added) _ => added = digest
  | _ => false

/-- Whether the password kept as this hash was looked up. -/
def Happening.looksUp (digest : String) : Happening → Bool
  | .called _ (.accepts sought) _ => sought = digest
  | _ => false

/-- What is answered, if anything is, is an error. -/
def Happening.Errs : Happening → Prop
  | .answered answer => ∃ text, answer = .reply (.error text)
  | _ => True

/-- A connection that was made after a password was set. -/
def Opened (id : Nat) (history : List Moment) : Prop :=
  ∀ moment ∈ history, moment.id = id → moment.what = .accepted → moment.world.passwords ≠ []

/-- The hashes of the passwords given so far. -/
def GivenAs (history : List Moment) (digest : String) : Prop :=
  ∃ moment ∈ history, moment.what.adds digest = true

/-- A connection has tried a password that had been given. -/
def TriedGiven (id : Nat) (history : List Moment) : Prop :=
  ∃ earlier moment later digest, history = earlier ++ moment :: later ∧ moment.id = id ∧
    moment.what.looksUp digest = true ∧ GivenAs earlier digest

theorem Opened.earlier {id : Nat} {moment : Moment} (opened : Opened id (history ++ [moment])) :
    Opened id history :=
  fun each member => opened each (List.mem_append_left _ member)

theorem TriedGiven.later {id : Nat} (moment : Moment) (tried : TriedGiven id history) :
    TriedGiven id (history ++ [moment]) := by
  obtain ⟨earlier, each, later, digest, rfl, isHere, looksUp, given⟩ := tried
  exact ⟨earlier, each, later ++ [moment], digest, by simp, isHere, looksUp, given⟩

theorem givenAs_concat (history : List Moment) (moment : Moment) (digest : String) :
    GivenAs (history ++ [moment]) digest ↔
      GivenAs history digest ∨ moment.what.adds digest = true := by
  simp [GivenAs, or_and_right, exists_or]

/-! ## The passwords there are -/

theorem perform_passwords {env : Env} {call : Call} {reply : call.Reply}
    (performed : world.perform env call = .done after reply) (digest : String) :
    digest ∈ after.passwords ↔
      digest ∈ world.passwords ∨ (Happening.called env call reply).adds digest = true := by
  cases call with
  | addPassword added =>
    cases performed
    simp only [Happening.adds, decide_eq_true_eq]
    split
    · rename_i known
      rw [List.contains_iff_mem] at known
      exact ⟨.inl, fun member => member.elim id fun same => same ▸ known⟩
    · simp [eq_comm]
  | _ =>
    rw [(perform_framed performed).passwords rfl]
    simp [Happening.adds]

section

variable [Platform]

theorem Stage.Moves.passwords {id : Nat}
    (moves : Stage.Moves server id world stage move moved after what) (digest : String) :
    digest ∈ after.passwords ↔ digest ∈ world.passwords ∨ what.adds digest = true := by
  cases moves with
  | call performed => exact perform_passwords performed digest
  | panic performed =>
    rw [perform_panicked performed]
    exact (or_iff_left (by simp [Happening.adds])).symm
  | _ => exact (or_iff_left (by simp [Happening.adds])).symm

/-- The passwords looked up are those that have been given. -/
def Pool.Known (pool : Pool) : Prop :=
  ∀ digest, digest ∈ pool.world.passwords ↔ GivenAs pool.history digest

theorem Pool.Known.step {server : Server} {pool next : Pool} {choice : Choice}
    (known : pool.Known) (stepped : pool.step server choice = some next) : next.Known := by
  intro digest
  obtain ⟨rfl, rfl⟩ | ⟨id, move, stage, moved, world, what, rfl, isStage, moves, rfl⟩ :=
    Pool.step_cases stepped
  · simp only [Pool.accept, givenAs_concat, ← known digest]
    exact (or_iff_left (by simp [Happening.adds])).symm
  · simp only [givenAs_concat, moves.passwords, known digest]

/-- Passwords are never given up. -/
theorem Stage.Moves.wanted {id : Nat}
    (moves : Stage.Moves server id world stage move moved after what)
    (wanted : world.passwords ≠ []) : after.passwords ≠ [] := by
  obtain ⟨digest, member⟩ := List.exists_mem_of_ne_nil _ wanted
  exact List.ne_nil_of_mem ((moves.passwords digest).mpr (.inl member))

/-- A password is wanted of a connection that was made after one was set. -/
def Pool.Wants (id : Nat) (pool : Pool) : Prop :=
  Opened id pool.history → id < pool.stages.length → pool.world.passwords ≠ []

theorem Pool.Wants.step {server : Server} {pool next : Pool} {choice : Choice} {id : Nat}
    (wants : pool.Wants id) (stepped : pool.step server choice = some next) : next.Wants id := by
  intro opened isHere
  obtain ⟨rfl, rfl⟩ | ⟨turn, move, stage, moved, world, what, rfl, isStage, moves, rfl⟩ :=
    Pool.step_cases stepped
  · rcases Nat.lt_or_eq_of_le (Nat.lt_succ_iff.mp (by simpa [Pool.accept] using isHere)) with
      older | isNew
    · exact wants opened.earlier older
    · exact opened ⟨pool.stages.length, pool.world, .accepted⟩ (by simp [Pool.accept])
        isNew.symm rfl
  · exact moves.wanted (wants opened.earlier (by simpa using isHere))

/-! ## A connection that is out -/

/-- Where a connection can stand that has not been let in. -/
inductive Stage.Outside (id : Nat) : Stage → Prop where
  | idle : Stage.Outside id (.idle (.outsider id))
  | told (asked : Value) (text : String) :
      Stage.Outside id (.running asked (.ret (.reply (.error text), .outsider id)))
  | alone (asked : Value) (digest : String) :
      Stage.Outside id (.running asked (lookUpAlone id digest))
  | lookingUp (asked : Value) (digest : String) :
      Stage.Outside id (.running asked (lookUp id digest))
  | gone : Stage.Outside id .gone

theorem run_outside (server : Server) (id : Nat) (asked : Value) :
    Stage.Outside id (.running asked (run server (.outsider id) asked)) := by
  cases tried : passwordTried asked with
  | none =>
    obtain ⟨text, isRun⟩ := run_outsider_none server id tried
    rw [isRun]
    exact .told asked text
  | some password =>
    rcases run_outsider_some server id tried with isRun | isRun <;> rw [isRun]
    · exact .lookingUp asked _
    · exact .alone asked _

/-- A connection that has asked for nothing in the meantime. -/
def Stage.unasked (id : Nat) : Stage → Stage
  | .gone => .gone
  | _ => .idle (.outsider id)

/-- Whether a move is part of asking for something and being answered. -/
def Move.ofCommand : Move → Bool
  | .ask _ | .call _ | .answer => true
  | _ => false

/-- A connection that is out and tries no password that has been given stays out, is told
of errors only, and leaves all that is shared as it was. -/
theorem Stage.Outside.moves {id : Nat} (outside : stage.Outside id)
    (moves : Stage.Moves server id world stage move moved after what)
    (wanted : world.passwords ≠ [])
    (unknown : ∀ digest, what.looksUp digest = true → digest ∉ world.passwords) :
    moved.Outside id ∧ what.Errs ∧
      (move.ofCommand = true → after = world ∧ moved.unasked id = stage.unasked id) := by
  cases outside with
  | idle =>
    cases moves with
    | ask client value => exact ⟨run_outside server id value, True.intro, fun _ => ⟨rfl, rfl⟩⟩
    | hear client waiting => exact ⟨.idle, True.intro, nofun⟩
    | leave client => exact ⟨.gone, True.intro, nofun⟩
  | told asked text =>
    cases moves with
    | answer asked value client => exact ⟨.idle, ⟨text, rfl⟩, fun _ => ⟨rfl, rfl⟩⟩
    | fail asked answered => exact ⟨.gone, True.intro, nofun⟩
  | alone asked digest =>
    cases moves with
    | call performed =>
      cases performed
      refine ⟨?_, True.intro, fun _ => ⟨rfl, rfl⟩⟩
      dsimp only
      rw [if_neg (by simpa using wanted)]
      exact .lookingUp asked digest
    | panic performed => cases performed
  | lookingUp asked digest =>
    cases moves with
    | call performed =>
      cases performed
      have notKnown : digest ∉ world.passwords := unknown digest (by simp [Happening.looksUp])
      refine ⟨?_, True.intro, fun _ => ⟨rfl, rfl⟩⟩
      dsimp only
      rw [if_neg (by simpa [notKnown] using wanted)]
      exact .told asked _
    | panic performed => cases performed
  | gone => cases moves

/-- A connection that is out: it has been told of errors only. -/
structure Pool.Shut (id : Nat) (pool : Pool) : Prop where
  outside : ∀ stage, pool.stages[id]? = some stage → stage.Outside id
  errors : ∀ moment ∈ pool.history, moment.id = id → moment.what.Errs

omit [Platform] in
/-- What a connection that is out looks up has not been given. -/
theorem Pool.Known.unknown {pool : Pool} (known : pool.Known) {id : Nat}
    (untried : ¬ TriedGiven id (pool.history ++ [⟨id, pool.world, what⟩])) (digest : String)
    (looksUp : what.looksUp digest = true) : digest ∉ pool.world.passwords := by
  rw [known digest]
  exact fun given =>
    untried ⟨pool.history, ⟨id, pool.world, what⟩, [], digest, rfl, rfl, looksUp, given⟩

theorem Pool.Shut.step {server : Server} {pool next : Pool} {choice : Choice} {id : Nat}
    (shut : pool.Shut id) (known : pool.Known) (wants : pool.Wants id)
    (opened : Opened id next.history) (untried : ¬ TriedGiven id next.history)
    (stepped : pool.step server choice = some next) : next.Shut id := by
  have wantsNext := wants.step stepped
  have here : ∀ move stage moved world what,
      Stage.Moves server id pool.world stage move moved world what →
      pool.stages[id]? = some stage →
      next = ⟨world, pool.stages.set id moved, pool.history ++ [⟨id, pool.world, what⟩]⟩ →
      moved.Outside id ∧ what.Errs := by
    rintro move stage moved world what moves isStage rfl
    have wanted := wants opened.earlier (List.getElem?_eq_some_iff.mp isStage).1
    obtain ⟨outside, errors, -⟩ := (shut.outside stage isStage).moves moves wanted
      (known.unknown untried)
    exact ⟨outside, errors⟩
  constructor
  · have before (turn : Nat) (stage : Stage) (isStage : pool.stages[turn]? = some stage) :
        turn = id → stage.Outside id := by
      rintro rfl
      exact shut.outside stage isStage
    have after : ∀ turn stage, next.stages[turn]? = some stage → turn = id → stage.Outside id := by
      refine Pool.each_step stepped before ?_ ?_ ?_
      · rintro rfl isNew
        have wanted : pool.world.passwords ≠ [] := wantsNext opened (by simp [Pool.accept, ← isNew])
        rw [Pool.newcomer, List.isEmpty_eq_false_iff.mpr wanted, isNew]
        exact .idle
      · exact fun moment _ turn stage _ outside => outside
      · rintro turn move stage moved world what moves isStage isNext - rfl
        exact (here move stage moved world what moves isStage isNext).1
    exact fun stage isStage => after id stage isStage rfl
  · intro moment member isHere
    obtain ⟨rfl, rfl⟩ | ⟨turn, move, stage, moved, world, what, rfl, isStage, moves, isNext⟩ :=
      Pool.step_cases stepped
    · rcases List.mem_append.mp member with earlier | isLast
      · exact shut.errors moment earlier isHere
      · obtain rfl := List.mem_singleton.mp isLast
        exact True.intro
    · rw [isNext] at member
      rcases List.mem_append.mp member with earlier | isLast
      · exact shut.errors moment earlier isHere
      · obtain rfl := List.mem_singleton.mp isLast
        obtain rfl : turn = id := isHere
        exact (here move stage moved world what moves isStage isNext).2

omit [Platform] in
theorem Pool.shut_start (id : Nat) (store : State) (log : Bytes) :
    (Pool.start store log).Shut id :=
  ⟨fun stage isStage => by simp [Pool.start] at isStage, by simp [Pool.start]⟩

omit [Platform] in
theorem Pool.wants_start (id : Nat) (store : State) (log : Bytes) :
    (Pool.start store log).Wants id := by
  simp [Pool.Wants, Pool.start]

omit [Platform] in
theorem Pool.known_start (store : State) (log : Bytes) : (Pool.start store log).Known := by
  simp [Pool.Known, Pool.start, GivenAs]

/-! ## A run without its commands -/

/-- Whether a choice has this connection ask for something or be answered. -/
def Choice.commandOf (id : Nat) : Choice → Bool
  | .turn whose move => whose = id && move.ofCommand
  | .accept => false

/-- What has happened on the other connections. -/
def others (id : Nat) (history : List Moment) : List Moment :=
  history.filter fun moment => moment.id ≠ id

/-- Two servers that differ in what has been asked on one connection, and in nothing that
anyone else can see. -/
structure Pool.Beside (id : Nat) (pool shadow : Pool) : Prop where
  world : shadow.world = pool.world
  count : shadow.stages.length = pool.stages.length
  elsewhere : ∀ other, other ≠ id → shadow.stages[other]? = pool.stages[other]?
  here : shadow.stages[id]? = pool.stages[id]?.map (Stage.unasked id)
  history : others id shadow.history = others id pool.history

namespace Pool.Beside

variable {id : Nat} {pool shadow : Pool}

omit [Platform] in
theorem accept (beside : pool.Beside id shadow) (shut : pool.accept.Shut id) :
    pool.accept.Beside id shadow.accept := by
  have same : shadow.newcomer = pool.newcomer := by
    rw [Pool.newcomer, beside.count, beside.world, Pool.newcomer]
  refine ⟨?_, ?_, ?_, ?_, ?_⟩
  · simp only [Pool.accept, beside.world, beside.count]
  · simp [Pool.accept, beside.count]
  · intro other otherwise
    rw [Pool.accept_lookup, Pool.accept_lookup, beside.count, same,
      beside.elsewhere other otherwise]
  · rw [Pool.accept_lookup, Pool.accept_lookup, beside.count, same]
    split
    · rename_i isNew
      have outside := shut.outside (.idle pool.newcomer) (by rw [Pool.accept_lookup, if_pos isNew])
      generalize pool.newcomer = newcomer at outside ⊢
      cases outside
      rfl
    · exact beside.here
  · simp only [Pool.accept, others, List.filter_append, beside.world, beside.count]
    rw [show shadow.history.filter _ = _ from beside.history, others]

/-- A turn of another connection is the same turn beside. -/
theorem elsewhere_step (beside : pool.Beside id shadow) {turn : Nat} (notHere : turn ≠ id)
    (isStage : pool.stages[turn]? = some stage)
    (moves : Stage.Moves server turn pool.world stage move moved world what) :
    ∃ after, shadow.step server (.turn turn move) = some after ∧
      Pool.Beside id
        ⟨world, pool.stages.set turn moved, pool.history ++ [⟨turn, pool.world, what⟩]⟩ after := by
  have isStage' : shadow.stages[turn]? = some stage := (beside.elsewhere turn notHere).trans isStage
  have movesToo : Stage.Moves server turn shadow.world stage move moved world what := by
    rw [beside.world]
    exact moves
  refine ⟨_, Pool.step_turn isStage' movesToo, ⟨rfl, ?_, ?_, ?_, ?_⟩⟩
  · simpa using beside.count
  · intro other otherwise
    simp only [lookup_set isStage, lookup_set isStage', beside.elsewhere other otherwise]
  · simp only [lookup_set isStage, lookup_set isStage', if_neg notHere.symm, beside.here]
  · simp only [others, List.filter_append, beside.world]
    rw [show shadow.history.filter _ = _ from beside.history, others]

/-- A turn of the connection itself that asks for nothing is the same turn beside. -/
theorem here_step (beside : pool.Beside id shadow) (isStage : pool.stages[id]? = some stage)
    (outside : stage.Outside id) (aside : move.ofCommand = false)
    (moves : Stage.Moves server id pool.world stage move moved world what) :
    ∃ after, shadow.step server (.turn id move) = some after ∧
      Pool.Beside id
        ⟨world, pool.stages.set id moved, pool.history ++ [⟨id, pool.world, what⟩]⟩ after := by
  have isStage' : shadow.stages[id]? = some (stage.unasked id) := by
    rw [beside.here, isStage, Option.map_some]
  have movesToo : Stage.Moves server id shadow.world (stage.unasked id) move
      (moved.unasked id) world what := by
    rw [beside.world]
    cases outside with
    | idle =>
      cases moves with
      | hear client waiting => exact .hear _ waiting
      | leave client => exact .leave _
      | ask client value => cases aside
    | told asked text =>
      cases moves with
      | fail asked answered => exact .leave _
      | answer asked value client => cases aside
    | alone asked digest =>
      cases moves with
      | call _ | panic _ => cases aside
    | lookingUp asked digest =>
      cases moves with
      | call _ | panic _ => cases aside
    | gone => cases moves
  refine ⟨_, Pool.step_turn isStage' movesToo, ⟨rfl, ?_, ?_, ?_, ?_⟩⟩
  · simpa using beside.count
  · intro other otherwise
    simp only [lookup_set isStage, lookup_set isStage', if_neg otherwise,
      beside.elsewhere other otherwise]
  · simp only [lookup_set isStage, lookup_set isStage', if_pos, Option.map_some]
  · simp only [others, List.filter_append, beside.world]
    rw [show shadow.history.filter _ = _ from beside.history, others]

omit [Platform] in
/-- A turn that asks for something makes no difference. -/
theorem leftOut (beside : pool.Beside id shadow) (isStage : pool.stages[id]? = some stage)
    (still : moved.unasked id = stage.unasked id) :
    Pool.Beside id
      ⟨pool.world, pool.stages.set id moved, pool.history ++ [⟨id, pool.world, what⟩]⟩ shadow := by
  refine ⟨beside.world, by simpa using beside.count, ?_, ?_, ?_⟩
  · intro other otherwise
    simp only [lookup_set isStage, if_neg otherwise, beside.elsewhere other otherwise]
  · simp only [lookup_set isStage, if_pos, beside.here, isStage, Option.map_some, still]
  · simp only [others, List.filter_append]
    simpa [others] using beside.history

end Pool.Beside

/-- A run without the commands of a connection that was out all along. -/
theorem run_without {store : State} {log : Bytes} {choices : List Choice} {pool : Pool} {id : Nat}
    (ran : Run.after (Pool.step server) (.start store log) choices = some pool)
    (opened : Opened id pool.history) (untried : ¬ TriedGiven id pool.history) :
    ∃ shadow, Run.after (Pool.step server) (.start store log)
        (choices.filter fun choice => !choice.commandOf id) = some shadow ∧
      pool.Shut id ∧ pool.Beside id shadow := by
  let good (pool : Pool) : Prop := Opened id pool.history ∧ ¬ TriedGiven id pool.history
  let related (pool shadow : Pool) : Prop :=
    (pool.Known ∧ pool.Wants id ∧ pool.Shut id) ∧ pool.Beside id shadow
  have closed : ∀ state choice next, Pool.step server state choice = some next → good next →
      good state := by
    rintro state choice next stepped ⟨opened, untried⟩
    obtain ⟨moment, isHistory⟩ := Pool.history_of_step stepped
    rw [isHistory] at opened untried
    exact ⟨opened.earlier, fun tried => untried (tried.later moment)⟩
  have still : ∀ state choice next, state.Known ∧ state.Wants id ∧ state.Shut id →
      Pool.step server state choice = some next → good next →
      next.Known ∧ next.Wants id ∧ next.Shut id := by
    rintro state choice next ⟨known, wants, shut⟩ stepped ⟨opened, untried⟩
    exact ⟨known.step stepped, wants.step stepped, shut.step known wants opened untried stepped⟩
  have kept : ∀ state shadow choice next, related state shadow →
      Pool.step server state choice = some next → good next → (!choice.commandOf id) = true →
      ∃ after, Pool.step server shadow choice = some after ∧ related next after := by
    rintro state shadow choice next ⟨held, beside⟩ stepped isGood keeps
    have heldNext := still state choice next held stepped isGood
    obtain ⟨rfl, rfl⟩ | ⟨turn, move, stage, moved, world, what, rfl, isStage, moves, rfl⟩ :=
      Pool.step_cases stepped
    · exact ⟨_, rfl, heldNext, beside.accept heldNext.2.2⟩
    · by_cases isTurn : turn = id
      · subst isTurn
        obtain ⟨after, stepped, beside⟩ := beside.here_step isStage (held.2.2.outside stage isStage)
          (by simpa [Choice.commandOf] using keeps) moves
        exact ⟨after, stepped, heldNext, beside⟩
      · obtain ⟨after, stepped, beside⟩ := beside.elsewhere_step isTurn isStage moves
        exact ⟨after, stepped, heldNext, beside⟩
  have dropped : ∀ state shadow choice next, related state shadow →
      Pool.step server state choice = some next → good next → (!choice.commandOf id) = false →
      related next shadow := by
    rintro state shadow choice next ⟨held, beside⟩ stepped isGood drops
    have heldNext := still state choice next held stepped isGood
    refine ⟨heldNext, ?_⟩
    obtain ⟨rfl, rfl⟩ | ⟨turn, move, stage, moved, world, what, rfl, isStage, moves, rfl⟩ :=
      Pool.step_cases stepped
    · cases drops
    · obtain ⟨rfl, ofCommand⟩ : turn = id ∧ move.ofCommand = true := by
        simpa [Choice.commandOf] using drops
      obtain ⟨known, wants, shut⟩ := held
      have wanted := wants isGood.1.earlier (List.getElem?_eq_some_iff.mp isStage).1
      obtain ⟨-, -, unmoved⟩ := (shut.outside stage isStage).moves moves wanted
        (known.unknown isGood.2)
      obtain ⟨rfl, unasked⟩ := unmoved ofCommand
      exact beside.leftOut isStage unasked
  have start : related (.start store log) (.start store log) :=
    ⟨⟨Pool.known_start store log, Pool.wants_start id store log, Pool.shut_start id store log⟩,
      ⟨rfl, rfl, fun _ _ => rfl, rfl, rfl⟩⟩
  obtain ⟨shadow, ranToo, ⟨-, -, shut⟩, beside⟩ :=
    Run.simulate closed kept dropped start ran ⟨opened, untried⟩
  exact ⟨shadow, ranToo, shut, beside⟩

/-! ## Where passwords come from -/

/-- Passwords that have been asked to be given. -/
def AskedFor (history : List Moment) (digest : String) : Prop :=
  ∃ moment ∈ history, ∃ asked command, moment.what = .asked asked ∧
    Command.parse asked = .ok command ∧ command.gives digest

/-- What a connection gives, or has put aside to give, is among these. -/
def Stage.Gives (given : String → Prop) : Stage → Prop
  | .idle client => ∀ command ∈ client.aside, ∀ digest, command.gives digest → given digest
  | .running _ program => program.Makes (Call.GivesOnly given) ∧
      program.Returns fun answered =>
        ∀ command ∈ answered.2.aside, ∀ digest, command.gives digest → given digest
  | _ => True

theorem Stage.Gives.mono {given wider : String → Prop} (gives : stage.Gives given)
    (included : ∀ digest, given digest → wider digest) : stage.Gives wider := by
  cases stage with
  | idle client =>
    exact fun command member digest isGiven => included _ (gives command member digest isGiven)
  | running asked program =>
    exact ⟨gives.1.mono fun call => Call.GivesOnly.mono included,
      gives.2.mono fun answered all command member digest isGiven =>
        included _ (all command member digest isGiven)⟩
  | _ => exact True.intro

/-- Whatever has been given was asked to be. -/
structure Pool.Attributed (pool : Pool) : Prop where
  stages : ∀ (id : Nat) (stage : Stage), pool.stages[id]? = some stage →
    stage.Gives (AskedFor pool.history)
  given : ∀ digest, GivenAs pool.history digest → AskedFor pool.history digest

theorem Pool.attributed_start (store : State) (log : Bytes) : (Pool.start store log).Attributed :=
  ⟨fun id stage isStage => by simp [Pool.start] at isStage, by simp [Pool.start, GivenAs]⟩

theorem AskedFor.later {digest : String} (moment : Moment) (asked : AskedFor history digest) :
    AskedFor (history ++ [moment]) digest := by
  obtain ⟨each, member, rest⟩ := asked
  exact ⟨each, List.mem_append_left _ member, rest⟩

theorem Stage.Gives.moves {id : Nat} (gives : stage.Gives (AskedFor history))
    (moves : Stage.Moves server id world stage move moved after what) :
    moved.Gives (AskedFor (history ++ [⟨id, world, what⟩])) ∧
      ∀ digest, what.adds digest = true → AskedFor history digest := by
  have later (digest : String) (asked : AskedFor history digest) :
      AskedFor (history ++ [⟨id, world, what⟩]) digest := asked.later _
  cases moves with
  | ask client value =>
    have all : ∀ command, command ∈ client.aside ∨ Command.parse value = .ok command →
        ∀ digest, command.gives digest →
          AskedFor (history ++ [⟨id, world, .asked value⟩]) digest := by
      rintro command (member | parsed) digest isGiven
      · exact later digest (gives command member digest isGiven)
      · exact ⟨_, List.mem_append_right _ List.mem_cons_self, value, command, rfl, parsed, isGiven⟩
    obtain ⟨makes, returns⟩ := run_givesOnly server client value all
    have kept := returns.mono fun answered kept command member => all command (kept command member)
    exact ⟨⟨makes, kept⟩, nofun⟩
  | hear client waiting => exact ⟨gives.mono later, nofun⟩
  | @call asked request resume env after reply performed =>
    have still : Stage.Gives (AskedFor history) (.running asked (resume reply)) :=
      ⟨gives.1.2 reply, gives.2 reply⟩
    refine ⟨still.mono later, fun digest adds => ?_⟩
    cases request with
    | addPassword added =>
      obtain rfl : added = digest := by simpa [Happening.adds] using adds
      exact gives.1.1
    | _ => cases adds
  | answer asked value client =>
    have still : Stage.Gives (AskedFor history) (.idle client) := gives.2
    exact ⟨still.mono later, nofun⟩
  | _ => exact ⟨True.intro, nofun⟩

theorem Pool.Attributed.step {server : Server} {pool next : Pool} {choice : Choice}
    (attributed : pool.Attributed) (stepped : pool.step server choice = some next) :
    next.Attributed := by
  have later (moment : Moment) (isHistory : next.history = pool.history ++ [moment])
      (digest : String) (asked : AskedFor pool.history digest) : AskedFor next.history digest := by
    rw [isHistory]
    exact asked.later moment
  constructor
  · refine Pool.each_step stepped attributed.stages ?_ ?_ ?_
    · exact fun _ => nofun
    · exact fun moment isHistory id stage _ gives => gives.mono (later moment isHistory)
    · intro id move stage moved world what moves isStage isNext gives
      rw [isNext]
      exact (gives.moves moves).1
  · intro digest given
    obtain ⟨rfl, rfl⟩ | ⟨id, move, stage, moved, world, what, rfl, isStage, moves, rfl⟩ :=
      Pool.step_cases stepped
    · rcases (givenAs_concat _ _ _).mp given with earlier | adds
      · exact later _ rfl digest (attributed.given digest earlier)
      · cases adds
    · rcases (givenAs_concat _ _ _).mp given with earlier | adds
      · exact later _ rfl digest (attributed.given digest earlier)
      · exact later _ rfl digest (((attributed.stages id stage isStage).moves moves).2 digest adds)

/-! ## A password that is tried -/

/-- How far a command that tries a password has come: what its connection is about to do,
given what has happened before it and since it was asked. -/
inductive Trying (id : Nat) (password : Bytes) (before during : List Moment) :
    Prog (Answer × Client) → Prop where
  | alone : Trying id password before during (lookUpAlone id (Acl.hashed password))
  | lookingUp : Trying id password before during (lookUp id (Acl.hashed password))
  | letIn {earlier later : List Moment} {moment : Moment}
      (isDuring : during = earlier ++ moment :: later) (isHere : moment.id = id)
      (looksUp : moment.what.looksUp (Acl.hashed password) = true)
      (given : GivenAs (before ++ earlier) (Acl.hashed password)) :
      Trying id password before during (.ret (.reply ok, .insider id))
  | refused {earlier later : List Moment} {moment : Moment}
      (isDuring : during = earlier ++ moment :: later) (isHere : moment.id = id)
      (looksUp : moment.what.looksUp (Acl.hashed password) = true)
      (notGiven : ¬ GivenAs (before ++ earlier) (Acl.hashed password)) :
      Trying id password before during (.ret (.reply Acl.wrongPassword, .outsider id))

theorem Trying.later {id : Nat} {password : Bytes} {before during : List Moment}
    {program : Prog (Answer × Client)} (trying : Trying id password before during program)
    (moment : Moment) : Trying id password before (during ++ [moment]) program := by
  cases trying with
  | alone => exact .alone
  | lookingUp => exact .lookingUp
  | letIn isDuring isHere looksUp given =>
    exact .letIn (by rw [isDuring, List.append_assoc, List.cons_append]) isHere looksUp given
  | refused isDuring isHere looksUp notGiven =>
    exact .refused (by rw [isDuring, List.append_assoc, List.cons_append]) isHere looksUp notGiven

/-- What a turn makes of a command that tries a password. -/
theorem Trying.moves {id : Nat} {password : Bytes} {before during : List Moment} {asked : Value}
    {program : Prog (Answer × Client)} (trying : Trying id password before during program)
    (moves : Stage.Moves server id world (.running asked program) move moved after what)
    (isCalled : what.isCalled = true) (wanted : world.passwords ≠ [])
    (known : ∀ digest, digest ∈ world.passwords ↔ GivenAs (before ++ during) digest) :
    ∃ later, moved = .running asked later ∧
      Trying id password before (during ++ [⟨id, world, what⟩]) later := by
  cases trying with
  | alone =>
    cases moves with
    | call performed =>
      cases performed
      refine ⟨_, rfl, ?_⟩
      dsimp only
      rw [if_neg (by simpa using wanted)]
      exact .lookingUp
    | panic performed => cases performed
  | lookingUp =>
    cases moves with
    | call performed =>
      cases performed
      refine ⟨_, rfl, ?_⟩
      dsimp only
      by_cases given : GivenAs (before ++ during) (Acl.hashed password)
      · rw [if_pos (by simp [(known _).mpr given])]
        exact .letIn rfl rfl (decide_eq_true rfl) given
      · have unknown := mt (known _).mp given
        rw [if_neg (by simpa [unknown] using wanted)]
        exact .refused rfl rfl (decide_eq_true rfl) given
    | panic performed => cases performed
  | letIn _ _ _ _ | refused _ _ _ _ => cases moves <;> cases isCalled

/-- Every command that tries a password, on a connection that was out when it was asked,
has come as far as what has happened since. -/
def Pool.Tries (id : Nat) (pool : Pool) : Prop :=
  ∀ before world asked during password,
    pool.history = before ++ ⟨id, world, .asked asked⟩ :: during →
    (∀ moment ∈ during, moment.id = id → moment.what.isCalled = true) →
    Opened id pool.history → ¬ TriedGiven id before → passwordTried asked = some password →
    ∃ program, pool.stages[id]? = some (.running asked program) ∧
      Trying id password (before ++ [⟨id, world, .asked asked⟩]) during program

theorem Pool.Tries.step {server : Server} {pool next : Pool} {choice : Choice} {id : Nat}
    (tries : pool.Tries id) (known : pool.Known) (wants : pool.Wants id)
    (shut : Opened id pool.history → ¬ TriedGiven id pool.history → pool.Shut id)
    (stepped : pool.step server choice = some next) : next.Tries id := by
  intro before world asked during password isHistory calls opened untried tried
  obtain ⟨rfl, rfl⟩ | ⟨turn, move, stage, moved, after, what, rfl, isStage, moves, rfl⟩ :=
    Pool.step_cases stepped
  all_goals
    rcases concat_eq_append_cons isHistory with ⟨rfl, isMoment, rfl⟩ | ⟨during, isPool, rfl⟩
  · cases isMoment
  · obtain ⟨program, isRunning, trying⟩ := tries before world asked during password isPool
      (fun each member => calls each (by simp [member])) opened.earlier untried tried
    refine ⟨program, ?_, trying.later _⟩
    have notNew : id ≠ pool.stages.length := (List.getElem?_eq_some_iff.mp isRunning).1.ne
    rw [Pool.accept_lookup, if_neg notNew, isRunning]
  · -- it has just been asked
    cases isMoment
    have outside := (shut opened.earlier untried).outside stage isStage
    cases moves with
    | ask client value =>
      cases outside
      refine ⟨_, by rw [lookup_set isStage, if_pos rfl], ?_⟩
      rcases run_outsider_some server id tried with isRun | isRun <;> rw [isRun]
      · exact .lookingUp
      · exact .alone
  · obtain ⟨program, isRunning, trying⟩ := tries before world asked during password isPool
      (fun each member => calls each (by simp [member])) opened.earlier untried tried
    by_cases isTurn : turn = id
    · subst isTurn
      cases isRunning.symm.trans isStage
      have isCall := calls ⟨turn, pool.world, what⟩ (by simp) rfl
      have wanted := wants opened.earlier (List.getElem?_eq_some_iff.mp isStage).1
      obtain ⟨later, rfl, trying⟩ := trying.moves moves isCall wanted fun digest => by
        rw [known digest, isPool, List.append_assoc, List.singleton_append]
      exact ⟨later, by rw [lookup_set isStage, if_pos rfl], trying⟩
    · refine ⟨program, ?_, trying.later _⟩
      rw [lookup_set isStage, if_neg fun same => isTurn same.symm, isRunning]

/-- What holds of a connection in every run. -/
structure Pool.Admits (id : Nat) (pool : Pool) : Prop where
  known : pool.Known
  wants : pool.Wants id
  shut : Opened id pool.history → ¬ TriedGiven id pool.history → pool.Shut id
  tries : pool.Tries id

theorem Pool.Admits.step {server : Server} {pool next : Pool} {choice : Choice} {id : Nat}
    (admits : pool.Admits id) (stepped : pool.step server choice = some next) :
    next.Admits id where
  known := admits.known.step stepped
  wants := admits.wants.step stepped
  shut opened untried := by
    obtain ⟨moment, isNext⟩ := Pool.history_of_step stepped
    have earlier : Opened id pool.history ∧ ¬ TriedGiven id pool.history := by
      rw [isNext] at opened untried
      exact ⟨opened.earlier, fun tried => untried (tried.later moment)⟩
    exact (admits.shut earlier.1 earlier.2).step admits.known admits.wants opened untried stepped
  tries := admits.tries.step admits.known admits.wants admits.shut stepped

theorem Pool.admits_start (id : Nat) (store : State) (log : Bytes) :
    (Pool.start store log).Admits id where
  known := Pool.known_start store log
  wants := Pool.wants_start id store log
  shut _ _ := Pool.shut_start id store log
  tries before world asked during password isHistory := by simp [Pool.start] at isHistory

/-- A password has been given. -/
def Given (history : List Moment) (password : Bytes) : Prop :=
  GivenAs history (Acl.hashed password)

/-- A connection opened while a password is wanted has no influence and is told nothing but
errors until it tries a password that has been given, which is what lets it in. -/
theorem outsider_has_no_influence (injective : Function.Injective Platform.sha256)
    (server : Server) (store : State) (log : Bytes) (choices : List Choice) (pool : Pool)
    (ran : Run.after (Pool.step server) (.start store log) choices = some pool)
    (id : Nat) (opened : Opened id pool.history) :
    -- until it tries a password that has been given, it is told of errors only, and a run
    -- without its commands is the same for everyone else
    (¬ TriedGiven id pool.history →
      (∀ moment ∈ pool.history, moment.id = id → ∀ answer, moment.what = .answered answer →
        ∃ text, answer = .reply (.error text)) ∧
      ∃ without, Run.after (Pool.step server) (.start store log)
          (choices.filter fun choice => !choice.commandOf id) = some without ∧
        without.world = pool.world ∧
        (∀ other, other ≠ id → without.stages[other]? = pool.stages[other]?) ∧
        others id without.history = others id pool.history) ∧
    -- a password it tries is looked up, and lets it in if and only if it has been given by then
    (∀ before world asked during password answer client,
      pool.history = before ++ ⟨id, world, .asked asked⟩ :: during →
      (∀ moment ∈ during, moment.id = id → moment.what.isCalled = true) →
      ¬ TriedGiven id before → passwordTried asked = some password →
      pool.stages[id]? = some (.running asked (.ret (answer, client))) →
      ∃ earlier moment later, during = earlier ++ moment :: later ∧ moment.id = id ∧
        moment.what.looksUp (Acl.hashed password) = true ∧
        (answer = .reply ok ∧ client.authenticated = true ↔
          Given (before ++ ⟨id, world, .asked asked⟩ :: earlier) password)) ∧
    -- what has been given was asked to be by `ACL SETUSER`, which gives all it is asked to
    (∀ password, Given pool.history password → ∃ moment ∈ pool.history, ∃ asked command,
      moment.what = .asked asked ∧ Command.parse asked = .ok command ∧
        password ∈ command.passwordsGiven) ∧
    (∀ client command steps after,
      (dispatch server client command).Runs machine steps (ok, after) →
      ∀ password ∈ command.passwordsGiven, ∃ step ∈ steps,
        step.before.perform step.env (.addPassword (Acl.hashed password)) =
          .done step.after ()) := by
  refine ⟨fun untried => ?_, ?_, fun password given => ?_,
    fun client command steps after runs => ?_⟩
  · obtain ⟨without, ranToo, shut, beside⟩ := run_without ran opened untried
    refine ⟨fun moment member isHere answer isAnswer => ?_, without, ranToo, beside.world,
      beside.elsewhere, beside.history⟩
    have errs := shut.errors moment member isHere
    rw [isAnswer] at errs
    exact errs
  · intro before world asked during password answer client isHistory calls untried tried isStage
    have admits : pool.Admits id := Run.invariant_always (fun pool => pool.Admits id)
      (fun _ _ _ => Pool.Admits.step) (Pool.admits_start id store log) ran
    obtain ⟨program, isRunning, trying⟩ := admits.tries before world asked during password
      isHistory calls opened untried tried
    cases isStage.symm.trans isRunning
    cases trying with
    | @letIn earlier later moment isDuring isHere looksUp given =>
      refine ⟨earlier, moment, later, isDuring, isHere, looksUp, iff_of_true ⟨rfl, rfl⟩ ?_⟩
      simpa [Given] using given
    | @refused earlier later moment isDuring isHere looksUp notGiven =>
      refine ⟨earlier, moment, later, isDuring, isHere, looksUp, iff_of_false nofun ?_⟩
      simpa [Given] using notGiven
  · have attributed : pool.Attributed :=
      Run.invariant_always (fun pool => pool.Attributed) (fun _ _ _ => Pool.Attributed.step)
        (Pool.attributed_start store log) ran
    obtain ⟨moment, member, asked, command, isAsked, parsed, other, isGiven, same⟩ :=
      attributed.given _ given
    obtain rfl := Acl.hashed_injective injective same
    exact ⟨moment, member, asked, command, isAsked, parsed, isGiven⟩
  · intro password member
    rw [dispatch_setUser server client (List.ne_nil_of_mem member)] at runs
    obtain ⟨reply, -, runs⟩ := runs.map_inv
    exact Acl.addPasswords_runs runs password member

end

/-- The platform without letters beyond ASCII, on which a password is its own hash. -/
abbrev Platform.plain : Platform := { Platform.ascii with sha256 := id }

/-- A password is set, and a connection made after that asks for a key and tries another
password. -/
def wrongTries : List Choice :=
  [.accept] ++ Choice.command 0 ["ACL", "SETUSER", "default", ">p"] 1 ++ [.accept] ++
    Choice.command 1 ["GET", "k"] 0 ++ Choice.command 1 ["AUTH", "q"] 2

theorem outsider_told_errors :
    ∃ pool, Run.after (@Pool.step .plain {}) (.start {} []) wrongTries = some pool ∧
      (∀ moment ∈ pool.history, moment.id = 1 → ∀ answer, moment.what = .answered answer →
        ∃ text, answer = .reply (.error text)) ∧
      ∃ without, Run.after (@Pool.step .plain {}) (.start {} [])
          (wrongTries.filter fun choice => !choice.commandOf 1) = some without ∧
        without.world = pool.world := by
  obtain ⟨pool, ran, seen⟩ := (Option.any_eq_true
    (fun pool : Pool => pool.history.all fun moment => moment.id ≠ 1 ||
      match moment.what with
      | .accepted => !moment.world.passwords.isEmpty
      | .called _ (.accepts digest) _ => pool.history.all fun each => !each.what.adds digest
      | _ => true)
    (Run.after (@Pool.step .plain {}) (.start {} []) wrongTries)).mp (by decide +kernel)
  simp only [List.all_eq_true, Bool.or_eq_true, decide_eq_true_eq] at seen
  have opened : Opened 1 pool.history := by
    intro moment member isHere isAccepted
    have wanted := (seen moment member).resolve_left (not_not.mpr isHere)
    rw [isAccepted] at wanted
    simpa using wanted
  have untried : ¬ TriedGiven 1 pool.history := by
    rintro ⟨earlier, moment, later, digest, isHistory, isHere, looksUp, each, isEarlier, adds⟩
    have checked := (seen moment (by simp [isHistory])).resolve_left (not_not.mpr isHere)
    unfold Happening.looksUp at looksUp
    split at looksUp
    · rename_i isWhat
      rw [isWhat] at checked
      have notAdded := List.all_eq_true.mp checked each (by simp [isHistory, isEarlier])
      rw [decide_eq_true_eq.mp looksUp, adds] at notAdded
      cases notAdded
    · cases looksUp
  have holds := (@outsider_has_no_influence .plain Function.injective_id {} {} [] wrongTries pool
    ran 1 opened).1 untried
  obtain ⟨errors, without, ranToo, isWorld, -⟩ := holds
  exact ⟨pool, ran, errors, without, ranToo, isWorld⟩

end RedisServer
