import RedisServer.Recovery.Timed

/-!
# What becomes of deadlines

A `SET` is recorded as it came in, with the time its key is to live and not the moment the
key lapses, so that a key starts to live anew when the log is done again.  What comes up is
live when the original would be, and holds the same, exactly when the replay can stand for
every deadline and each key that was last set to live for a while was set at the moment of
the replay.
-/

namespace RedisServer

/-! ## Cells as time goes by -/

/-- A cell, if its time has not passed. -/
def Cell.unexpired (now : Instant) (cell : Option Cell) : Option Cell :=
  cell.filter fun cell => !cell.expiresAt.any fun deadline => deadline ≤ now

/-- A cell that does not lapse, if there is one. -/
def Cell.Steady (cell : Option Cell) : Prop := ∀ held, cell = some held → held.expiresAt = none

namespace Cell

variable {now later : Instant} {cell : Option Cell}

theorem unexpired_steady (steady : Steady cell) (now : Instant) : unexpired now cell = cell := by
  cases cell with
  | none => rfl
  | some held => simp [unexpired, steady held rfl]

theorem unexpired_dated {data : Data} {deadline : Instant} (now : Instant) :
    unexpired now (some ⟨data, some deadline⟩) =
      if deadline ≤ now then none else some ⟨data, some deadline⟩ := by
  by_cases past : deadline ≤ now
  · simp [unexpired, past]
  · simp [unexpired, past]

theorem unexpired_eq_some {held : Cell} (found : unexpired now cell = some held) :
    cell = some held ∧ ¬ held.expiresAt.any fun deadline => deadline ≤ now := by
  simpa [unexpired, Option.filter_eq_some_iff] using found

theorem unexpired_of_le (earlier : now ≤ later) :
    unexpired later (unexpired now cell) = unexpired later cell := by
  cases cell with
  | none => rfl
  | some held =>
    obtain ⟨data, _ | deadline⟩ := held
    · rfl
    · rw [unexpired_dated]
      split
      · rename_i past
        rw [unexpired_dated, if_pos (past.trans earlier)]
        rfl
      · rfl

theorem unexpired_none_of_le (earlier : now ≤ later) (gone : unexpired now cell = none) :
    unexpired later cell = none := by
  rw [← unexpired_of_le earlier, gone]
  rfl

/-- Counting up leaves the deadline in place. -/
theorem increment_some (data : Data) (expiresAt : Option Instant) :
    ∃ counted, (increment (some ⟨data, expiresAt⟩)).1 = some ⟨counted, expiresAt⟩ := by
  cases data with
  | string value =>
    simp only [increment]
    split
    · exact ⟨_, rfl⟩
    · split
      · exact ⟨_, rfl⟩
      · exact ⟨_, rfl⟩
  | _ => exact ⟨_, rfl⟩

theorem increment_steady (steady : Steady cell) : Steady (increment cell).1 := by
  intro held made
  cases cell with
  | none =>
    cases made
    rfl
  | some old =>
    obtain ⟨counted, isCounted⟩ := increment_some old.data old.expiresAt
    rw [made] at isCounted
    cases isCounted
    exact steady old rfl

/-- Counting up that is refused changes nothing. -/
theorem increment_error {error : IncrementError} (refused : (increment cell).2 = .error error) :
    (increment cell).1 = cell := by
  rcases cell with _ | ⟨_ | _ | _ | _, expiresAt⟩
  · cases refused
  · simp only [increment] at refused ⊢
    split at refused
    · rfl
    · split at refused
      · rename_i large
        simp [large]
      · cases refused
  all_goals rfl

end Cell

/-! ## A key and what comes up in its place -/

/-- What a key and the key that comes up in its place hold, now and at the time of the replay,
by when the key was last set and for how long. -/
inductive StandsIn (replay now : Instant) :
    Option (Instant × Option Duration) → Option Cell → Option Cell → Prop where
  /-- Nothing lapses. -/
  | steady {last : Option (Instant × Option Duration)} {cell : Option Cell}
      (steady : Cell.Steady cell)
      (unending : ∀ set delay, last = some (set, some delay) → delay = 0) :
      StandsIn replay now last cell cell
  /-- Set to live for no time at all, and gone. -/
  | gone {set : Instant} {cell other : Option Cell} (lapsed : Cell.unexpired now cell = none)
      (otherLapsed : Cell.unexpired replay other = none) :
      StandsIn replay now (some (set, some 0)) cell other
  /-- Set at the time of the replay. -/
  | meanwhile {delay : Duration} {data : Data} (lives : 0 < delay) (isNow : now = replay) :
      StandsIn replay now (some (replay, some delay)) (some ⟨data, some (replay + delay)⟩)
        (some ⟨data, some (replay + delay)⟩)
  /-- Set before, so that what comes up outlives it. -/
  | outlived {set : Instant} {delay : Duration} {cell : Option Cell} {data : Data}
      (lives : 0 < delay) (before : set < replay)
      (deadline : ∀ held, cell = some held →
        held.expiresAt = some (set + delay) ∨ held.expiresAt = none) :
      StandsIn replay now (some (set, some delay)) cell (some ⟨data, some (replay + delay)⟩)

namespace StandsIn

variable {replay now later : Instant} {last : Option (Instant × Option Duration)}
  {cell other : Option Cell}

theorem wait (holds : StandsIn replay now last cell other) (earlier : now ≤ later)
    (before : later ≤ replay) : StandsIn replay later last cell other := by
  cases holds with
  | steady steady unending => exact .steady steady unending
  | gone lapsed otherLapsed =>
    exact .gone (Cell.unexpired_none_of_le earlier lapsed) otherLapsed
  | meanwhile lives isNow => exact .meanwhile lives (le_antisymm before (isNow ▸ earlier))
  | outlived lives isBefore deadline => exact .outlived lives isBefore deadline

/-- Looking at a key drops it if its time has passed. -/
theorem look (holds : StandsIn replay now last cell other) :
    StandsIn replay now last (Cell.unexpired now cell) other := by
  cases holds with
  | steady steady unending =>
    rw [Cell.unexpired_steady steady]
    exact .steady steady unending
  | gone lapsed otherLapsed =>
    rw [lapsed]
    exact .gone rfl otherLapsed
  | meanwhile lives isNow =>
    subst isNow
    rw [Cell.unexpired_dated, if_neg (Nat.not_le.mpr (Nat.lt_add_of_pos_right lives))]
    exact .meanwhile lives rfl
  | outlived lives isBefore deadline =>
    exact .outlived lives isBefore fun held found =>
      deadline held (Cell.unexpired_eq_some found).1

/-- Counting up, if it goes through. -/
theorem increment (holds : StandsIn replay now last cell other) :
    StandsIn replay now last (Cell.increment (Cell.unexpired now cell)).1
      (Cell.increment (Cell.unexpired replay other)).1 := by
  cases holds with
  | steady steady unending =>
    rw [Cell.unexpired_steady steady, Cell.unexpired_steady steady]
    exact .steady (Cell.increment_steady steady) unending
  | gone lapsed otherLapsed =>
    rw [lapsed, otherLapsed]
    refine .steady (Cell.increment_steady nofun) fun set delay found => ?_
    cases found
    rfl
  | @meanwhile delay data lives isNow =>
    subst isNow
    rw [Cell.unexpired_dated, if_neg (Nat.not_le.mpr (Nat.lt_add_of_pos_right lives))]
    obtain ⟨counted, isCounted⟩ := Cell.increment_some data (some (now + delay))
    rw [isCounted]
    exact .meanwhile lives rfl
  | @outlived set delay cell data lives isBefore deadline =>
    rw [Cell.unexpired_dated replay, if_neg (Nat.not_le.mpr (Nat.lt_add_of_pos_right lives))]
    obtain ⟨counted, isCounted⟩ := Cell.increment_some data (some (replay + delay))
    rw [isCounted]
    refine .outlived lives isBefore fun held made => ?_
    cases found : Cell.unexpired now cell with
    | none =>
      rw [found] at made
      cases made
      exact .inr rfl
    | some old =>
      obtain ⟨counted, isCounted⟩ := Cell.increment_some old.data old.expiresAt
      rw [found, isCounted] at made
      cases made
      exact deadline old (Cell.unexpired_eq_some found).1

/-- Setting a key anew. -/
theorem set (value : Bytes) {expiresIn : Option Duration}
    {expiresAt otherExpiresAt : Option Instant}
    (isDeadline : deadline now expiresIn = some expiresAt)
    (isOtherDeadline : deadline replay expiresIn = some otherExpiresAt) (before : now ≤ replay) :
    StandsIn replay now (some (now, expiresIn)) (some ⟨.string value, expiresAt⟩)
      (some ⟨.string value, otherExpiresAt⟩) := by
  cases expiresIn with
  | none =>
    cases isDeadline
    cases isOtherDeadline
    exact .steady (fun held found => by cases found; rfl) nofun
  | some delay =>
    obtain ⟨moment, isMoment, rfl⟩ := Option.map_eq_some_iff.mp isDeadline
    obtain ⟨otherMoment, isOtherMoment, rfl⟩ := Option.map_eq_some_iff.mp isOtherDeadline
    have momentEq : moment = now + delay := by
      unfold instantAdd at isMoment
      split at isMoment <;> cases isMoment
      rfl
    have otherMomentEq : otherMoment = replay + delay := by
      unfold instantAdd at isOtherMoment
      split at isOtherMoment <;> cases isOtherMoment
      rfl
    subst momentEq otherMomentEq
    rcases Nat.eq_zero_or_pos delay with rfl | lives
    · refine .gone ?_ ?_
      · rw [Cell.unexpired_dated, if_pos (le_of_eq (Nat.add_zero _))]
      · rw [Cell.unexpired_dated, if_pos (le_of_eq (Nat.add_zero _))]
    · rcases Nat.lt_or_eq_of_le before with isBefore | rfl
      · refine .outlived lives isBefore fun held found => .inl ?_
        cases found
        rfl
      · exact .meanwhile lives rfl

/-- From the time of the replay on the two are live together and the same exactly when the key
was last set then, or not to live for a while. -/
theorem alike_iff (holds : StandsIn replay now last cell other) (before : now ≤ replay) :
    (∀ moment, replay ≤ moment → (Cell.unexpired moment other).map Cell.data =
        (Cell.unexpired moment cell).map Cell.data) ↔
      ∀ set delay, last = some (set, some delay) → delay = 0 ∨ set = replay := by
  cases holds with
  | steady steady unending =>
    exact ⟨fun _ set delay isLast => .inl (unending set delay isLast), fun _ _ _ => rfl⟩
  | gone lapsed otherLapsed =>
    refine ⟨fun _ set delay isLast => ?_, fun _ moment past => ?_⟩
    · cases isLast
      exact .inl rfl
    · rw [Cell.unexpired_none_of_le past otherLapsed,
        Cell.unexpired_none_of_le (before.trans past) lapsed]
  | meanwhile lives isNow =>
    refine ⟨fun _ set delay isLast => ?_, fun _ _ _ => rfl⟩
    cases isLast
    exact .inr rfl
  | @outlived set delay cell data lives isBefore deadline =>
    refine ⟨fun alike => ?_, fun timely => ?_⟩
    · exfalso
      have past : replay < replay + delay := Nat.lt_add_of_pos_right lives
      have justBefore := alike (replay + delay - 1) (Nat.le_sub_one_of_lt past)
      have justThen := alike (replay + delay) past.le
      rw [Cell.unexpired_dated,
        if_neg (Nat.not_le.mpr (Nat.sub_one_lt (Nat.ne_zero_of_lt past)))] at justBefore
      rw [Cell.unexpired_dated, if_pos le_rfl] at justThen
      cases cell with
      | none => cases justBefore
      | some held =>
        obtain ⟨held, expiresAt⟩ := held
        rcases deadline _ rfl with isDeadline | noDeadline
        · obtain rfl : expiresAt = some (set + delay) := isDeadline
          rw [Cell.unexpired_dated, if_pos (Nat.le_sub_one_of_lt
            (Nat.add_lt_add_right isBefore delay))] at justBefore
          cases justBefore
        · obtain rfl : expiresAt = none := noDeadline
          cases justThen
    · rcases timely set delay rfl with noTime | isReplay
      · exact absurd noTime (Nat.ne_of_gt lives)
      · exact absurd isReplay (Nat.ne_of_lt isBefore)

end StandsIn

/-! ## Strings in the store -/

/-- The methods on strings. -/
def KeyOp.OnString : KeyOp → Prop
  | .set _ _ | .get | .increment => True
  | _ => False

/-- What a method makes of the cells, at what the clock reads.  `none` is a panic. -/
def Keyspace.carryAt (now : Instant) (key : Bytes) (op : KeyOp) (space : Keyspace) :
    Option Keyspace :=
  (op.act ⟨now, 0⟩ (Cell.unexpired now (space key))).map fun result =>
    Function.update space key result.1

namespace State

theorem live_cell (state : State) (now : Instant) (key : Bytes) :
    (state.live now key).map Entry.cell = Cell.unexpired now (state.contents key) := by
  rw [live, contents]
  cases state.entries[key]? with
  | none => rfl
  | some entry =>
    obtain ⟨data, _ | deadline, version⟩ := entry
    · rfl
    · rw [Option.map_some, Entry.cell, Cell.unexpired_dated]
      by_cases past : deadline ≤ now
      · simp [RedisServer.unexpired, Entry.hasExpired, past]
      · simp [RedisServer.unexpired, Entry.hasExpired, Entry.cell, past]

theorem changes_increment (now : Instant) (state : State) (key : Bytes) :
    (state.increment now key).1.changes = state.changes + 1 := by
  unfold increment
  dsimp only
  split
  · split
    · rfl
    · split <;> rfl
  · rfl

/-- A method on a string leaves its key what it says. -/
theorem performOn_contents {clock : Clock} {state : State} {key : Bytes} {op : KeyOp}
    (onString : op.OnString) :
    match state.performOn clock key op with
    | none => op.act ⟨clock.now, 0⟩ (Cell.unexpired clock.now (state.contents key)) = none
    | some (after, reply) => ∃ cell,
        op.act ⟨clock.now, 0⟩ (Cell.unexpired clock.now (state.contents key)) =
          some (cell, reply) ∧ after.contents = Function.update state.contents key cell := by
  have timely (cell : Option Cell) : op.act ⟨clock.now, 0⟩ cell = op.act clock cell := by
    cases op <;> first | rfl | exact onString.elim
  rw [timely, ← live_cell]
  cases performed : state.performOn clock key op with
  | none =>
    cases op with
    | set value expiresIn =>
      rcases expiresIn with _ | delay
      · cases performed
      · simp only [performOn, set, Option.map_eq_none_iff] at performed
        simp [KeyOp.act, deadline, performed]
    | get => cases performed
    | increment => cases performed
    | _ => exact onString.elim
  | some result =>
    obtain ⟨after, reply⟩ := result
    have acts : Acts clock key op state after reply :=
      performOn_acts (by rintro _ _ rfl; exact onString) performed
    obtain ⟨cell, acted, stored⟩ := acts.cell
    refine ⟨cell, acted, funext fun other => ?_⟩
    by_cases same : other = key
    · subst same
      rw [Function.update_self]
      rcases stored with stored | ⟨rfl, unwritten, isCell⟩
      · rw [contents, stored, contents_stamp]
      · -- only a look leaves everything as it was, and then nothing had lapsed
        cases op with
        | set value expiresIn => cases unwritten
        | increment =>
          have counted := changes_increment clock.now after other
          rw [Option.some.inj performed] at counted
          exact absurd counted (Nat.ne_of_lt (Nat.lt_succ_self _))
        | get =>
          have looked : after.looked clock.now other = after :=
            congrArg Prod.fst (Option.some.inj performed)
          rw [isCell, contents, ← looked_self, looked]
        | _ => exact onString.elim
    · rw [Function.update_of_ne same, contents, acts.frame other same]
      rfl

end State

/-! ## The commands -/

variable [Platform]

/-- The commands on strings. -/
def Command.OnString (command : Command) : Prop :=
  command.uppercased = "SET" ∨ command.uppercased = "INCR" ∨ command.uppercased = "GET"

/-- A command on a string is refused outright, or asks one method of one key and is written
down if that wrote. -/
theorem string_program {command : Command} (onString : command.OnString) :
    (command.target = none ∧ ∃ value : Value, value.isError ∧
      ∀ server client, runAgainst server client command = client.kept (.ret value)) ∨
    ∃ (key : Bytes) (op : KeyOp) (reply : op.Reply → Value),
      command.target = some (key, op) ∧ op.OnString ∧
      (∀ answered, op.wrote answered = true → ¬ (reply answered).isError ∧
        writtenDown command (reply answered) = some command.asSent) ∧
      (∀ answered, op.wrote answered = false → (reply answered).isError ∨
        writtenDown command (reply answered) = none) ∧
      ∀ server client, runAgainst server client command =
        client.kept (ask (.on key op) reply) := by
  obtain ⟨uppercased, name, args⟩ := command
  rcases onString with named | named | named
  · obtain rfl : uppercased = "SET" := named
    rcases args with _ | ⟨key, _ | ⟨value, options⟩⟩
    · exact .inl ⟨rfl, wrongArity "set", rfl, fun _ _ => rfl⟩
    · exact .inl ⟨rfl, wrongArity "set", rfl, fun _ _ => rfl⟩
    · have target : Command.target ⟨"SET", name, key :: value :: options⟩ =
          askedOf (Strings.set key value options) := rfl
      have runs (server : Server) (client : Client) :
          runAgainst server client ⟨"SET", name, key :: value :: options⟩ =
            client.kept (Strings.set key value options) := rfl
      rw [target]
      simp only [runs]
      unfold Strings.set
      cases read : Strings.parseExpiry options with
      | error error =>
        exact .inl ⟨rfl, error, Strings.isError_of_parseExpiry read, fun _ _ => rfl⟩
      | ok expiresIn =>
        refine .inr ⟨key, .set value expiresIn, fun _ => ok, rfl, True.intro, ?_, ?_,
          fun _ _ => rfl⟩
        · exact fun _ _ => ⟨Bool.false_ne_true, rfl⟩
        · exact fun _ unwritten => absurd unwritten.symm Bool.false_ne_true
  · obtain rfl : uppercased = "INCR" := named
    rcases args with _ | ⟨key, _ | ⟨other, rest⟩⟩
    · exact .inl ⟨rfl, wrongArity "incr", rfl, fun _ _ => rfl⟩
    · refine .inr ⟨key, .increment, _, rfl, True.intro, ?_, ?_, fun _ _ => rfl⟩
      · rintro (error | number) written
        · cases written
        · exact ⟨nofun, rfl⟩
      · rintro (error | number) unwritten
        · cases error <;> exact .inl rfl
        · cases unwritten
    · exact .inl ⟨rfl, wrongArity "incr", rfl, fun _ _ => rfl⟩
  · obtain rfl : uppercased = "GET" := named
    rcases args with _ | ⟨key, _ | ⟨other, rest⟩⟩
    · exact .inl ⟨rfl, wrongArity "get", rfl, fun _ _ => rfl⟩
    · refine .inr ⟨key, .get, _, rfl, True.intro, ?_, fun _ _ => .inr rfl, fun _ _ => rfl⟩
      exact fun _ written => absurd written Bool.false_ne_true
    · exact .inl ⟨rfl, wrongArity "get", rfl, fun _ _ => rfl⟩

/-- The method a command that came in asks for, and the key it asks it of. -/
def Asked.target (asked : Asked) : Option (Bytes × KeyOp) :=
  match Command.parse asked.found with
  | .ok command => command.target
  | .error _ => none

/-- What words make of the cells at a time.  `none` is a panic. -/
def carryWordsAt (now : Instant) (words : List Bytes) (space : Keyspace) : Option Keyspace :=
  match Command.parse (asCommand words) with
  | .ok command =>
    match command.target with
    | some (key, op) => space.carryAt now key op
    | none => some space
  | .error _ => some space

omit [Platform] in
theorem unsteered_string {command : Command} (onString : command.OnString)
    (transaction : Transaction) :
    Transactions.steersATransaction command.uppercased = false ∧
      Transactions.steer command transaction = none := by
  obtain ⟨uppercased, name, args⟩ := command
  rcases onString with named | named | named <;>
    (simp only at named; subst named; exact ⟨rfl, rfl⟩)

omit [Platform] in
theorem Command.OnString.ne_psync {command : Command} (onString : command.OnString) :
    command.uppercased ≠ "PSYNC" := by
  rcases onString with named | named | named <;> (rw [named]; decide)

/-- A command on a string done again does what it says at what the clock then reads. -/
theorem does_string {server : Server} {client : Client} {command : Command} {words : List Bytes}
    (trusted : client.Trusted) (parsed : Command.parse (asCommand words) = .ok command)
    (onString : command.OnString) :
    Does (fun space state => state.contents = space)
      (fun clock words space => carryWordsAt clock.now words space) server client words := by
  intro supply count world space held
  simp only [carryWordsAt, parsed]
  rcases string_program onString with ⟨noTarget, value, isError, runs⟩ |
    ⟨key, op, reply, isTarget, onString', -, -, runs⟩
  · rw [noTarget]
    refine ⟨(count, world), ?_, held⟩
    simp only [carryOutOn, run, parsed, runCommand_unsteered trusted (unsteered_string onString _),
      dispatch_refused isError (runs server client)]
    rfl
  · rw [isTarget]
    have stores := @run_stores server client command supply _ trusted _ parsed
      (unsteered_string onString _) key op reply (runs server client) count world
    have contents := @State.performOn_contents (supply count).clock world.store key op onString'
    dsimp only
    rw [held] at contents
    cases performed : world.store.performOn (supply count).clock key op with
    | none =>
      rw [performed] at contents stores
      obtain ⟨last, panics⟩ := stores
      rw [Keyspace.carryAt, contents]
      simp only [Option.map_none, carryOutOn, panics]
    | some result =>
      rw [performed] at contents stores
      obtain ⟨cell, acted, isAfter⟩ := contents
      obtain ⟨last, answer, ends, isStore⟩ := stores
      rw [Keyspace.carryAt, acted]
      exact ⟨last, by simp only [carryOutOn, ends], by rw [isStore, isAfter]⟩

/-! ## Runs -/

/-- When a command sets this key, and for how long. -/
def Asked.sets (key : Bytes) (asked : Asked) : Option (Instant × Option Duration) :=
  match asked.target with
  | some (target, .set _ expiresIn) =>
    if target = key then some (asked.clock.now, expiresIn) else none
  | _ => none

/-- When a key was last set, and for how long. -/
def lastSet (key : Bytes) (answers : List (Asked × Answer)) : Option (Instant × Option Duration) :=
  answers.reverse.findSome? fun answered => answered.1.sets key

/-- A clock that reads this can stand for every deadline that was asked for. -/
def Representable (replay : Instant) (answers : List (Asked × Answer)) : Prop :=
  ∀ answered ∈ answers, ∀ key set delay, answered.1.sets key = some (set, some delay) →
    instantAdd replay delay ≠ none

theorem lastSet_concat (key : Bytes) (answers : List (Asked × Answer))
    (answered : Asked × Answer) :
    lastSet key (answers ++ [answered]) = (answered.1.sets key).or (lastSet key answers) := by
  simp [lastSet, List.findSome?_cons]
  cases answered.1.sets key <;> rfl

/-- The cells these records come to, done again at one moment.  `none` is a panic. -/
def rebuiltAt (replay : Instant) (records : List (List Bytes)) : Option Keyspace :=
  records.foldlM (fun space words => carryWordsAt replay words space) fun _ => none

/-- The log is of commands on strings, and comes to a key in the place of each, unless one of
the deadlines is past what the clock can stand for. -/
structure Course.Dated (replay now : Instant) (records : List (List Bytes))
    (course : Course) : Prop where
  log : course.world.log = encodeAll (records.map asCommand)
  spelled : ∀ words ∈ records, Sendable words ∧ ∃ command,
    Command.parse (asCommand words) = .ok command ∧ command.OnString
  rebuilt :
    match rebuiltAt replay records with
    | none => ¬ Representable replay course.answers
    | some space => Representable replay course.answers ∧ ∀ key,
        StandsIn replay now (lastSet key course.answers) (course.world.store.contents key)
          (space key)

section

variable {server : Server} {replay now : Instant} {records : List (List Bytes)} {course : Course}
  {asked : Asked} {command : Command}

theorem representable_concat {answers : List (Asked × Answer)} {answered : Asked × Answer} :
    Representable replay (answers ++ [answered]) ↔ Representable replay answers ∧
      ∀ key set delay, answered.1.sets key = some (set, some delay) →
        instantAdd replay delay ≠ none := by
  simp [Representable, or_imp, forall_and]

/-- A command that sets nothing and is not recorded. -/
theorem Course.Dated.unrecorded (dated : course.Dated replay now records)
    (earlier : now ≤ asked.clock.now) (before : asked.clock.now ≤ replay)
    (setsNothing : ∀ key, asked.sets key = none) {world : World}
    (sameLog : world.log = course.world.log)
    (cells : ∀ key, world.store.contents key = course.world.store.contents key ∨
      world.store.contents key =
        Cell.unexpired asked.clock.now (course.world.store.contents key)) (answer : Answer) :
    Course.Dated replay asked.clock.now records ⟨world, course.answers ++ [(asked, answer)]⟩ where
  log := sameLog.trans dated.log
  spelled := dated.spelled
  rebuilt := by
    have rebuilt := dated.rebuilt
    have same : Representable replay (course.answers ++ [(asked, answer)]) ↔
        Representable replay course.answers := by
      simp [representable_concat, setsNothing]
    split
    · rename_i panics
      rw [panics] at rebuilt
      exact fun representable => rebuilt (same.mp representable)
    · rename_i space isSpace
      rw [isSpace] at rebuilt
      refine ⟨same.mpr rebuilt.1, fun key => ?_⟩
      have waited := (rebuilt.2 key).wait earlier before
      rw [lastSet_concat, setsNothing, Option.none_or]
      rcases cells key with unchanged | looked
      · rw [unchanged]
        exact waited
      · rw [looked]
        exact waited.look

theorem rebuiltAt_concat (parsed : Command.parse command.asSent = .ok command) {key : Bytes}
    {op : KeyOp} (isTarget : command.target = some (key, op)) :
    rebuiltAt replay (records ++ [command.name :: command.args]) =
      (rebuiltAt replay records).bind fun space => space.carryAt replay key op := by
  rw [Command.asSent] at parsed
  simp only [rebuiltAt, List.foldlM_append, List.foldlM_cons, List.foldlM_nil, carryWordsAt, parsed,
    isTarget]
  refine congrArg (Option.bind _) (funext fun space => ?_)
  exact bind_pure _

/-- A command that is recorded. -/
theorem Course.Dated.recorded (dated : course.Dated replay now records)
    (earlier : now ≤ asked.clock.now) (before : asked.clock.now ≤ replay)
    (parsed : Command.parse asked.found = .ok command) (onString : command.OnString)
    (received : Received asked.found) {key : Bytes} {op : KeyOp} {answered : op.Reply}
    {cell : Option Cell} (isTarget : command.target = some (key, op)) (onKey : op.OnString)
    (wrote : op.wrote answered = true)
    (acted : op.act ⟨asked.clock.now, 0⟩ (Cell.unexpired asked.clock.now
      (course.world.store.contents key)) = some (cell, answered)) {world : World}
    (isLog : world.log = course.world.log ++ command.asSent.encode)
    (contents : world.store.contents = Function.update course.world.store.contents key cell)
    (answer : Answer) :
    Course.Dated replay asked.clock.now (records ++ [command.name :: command.args])
      ⟨world, course.answers ++ [(asked, answer)]⟩ := by
  have isSent := eq_asSent_of_parse parsed
  have isAsked : asked.target = some (key, op) := by
    rw [Asked.target, parsed]
    exact isTarget
  rw [isSent] at parsed received
  refine ⟨?_, ?_, ?_⟩
  · rw [isLog, dated.log]
    simp [Command.asSent, encodeAll_eq_flatMap]
  · refine List.forall_mem_append.mpr ⟨dated.spelled, ?_⟩
    intro words member
    obtain rfl := List.mem_singleton.mp member
    exact ⟨received.sendable (by simp), command, parsed, onString⟩
  · have rebuilt := dated.rebuilt
    rw [rebuiltAt_concat parsed isTarget]
    cases isSpace : rebuiltAt replay records with
    | none =>
      rw [isSpace] at rebuilt
      exact fun representable => rebuilt (representable_concat.mp representable).1
    | some space =>
      rw [isSpace] at rebuilt
      have waited (other : Bytes) := (rebuilt.2 other).wait earlier before
      dsimp only [Option.bind_some, Keyspace.carryAt]
      cases op with
      | set value expiresIn =>
        have sets (other : Bytes) : asked.sets other =
            if key = other then some (asked.clock.now, expiresIn) else none := by
          rw [Asked.sets, isAsked]
        obtain ⟨expiresAt, isDeadline, isCell⟩ := Option.map_eq_some_iff.mp acted
        cases isCell
        cases otherDeadline : deadline replay expiresIn with
        | none =>
          simp only [KeyOp.act, otherDeadline, Option.map_none]
          intro representable
          rcases expiresIn with _ | delay
          · cases otherDeadline
          · refine (representable_concat.mp representable).2 key asked.clock.now delay
              (by rw [sets, if_pos rfl]) ?_
            simpa [deadline] using otherDeadline
        | some otherExpiresAt =>
          simp only [KeyOp.act, otherDeadline, Option.map_some]
          refine ⟨representable_concat.mpr ⟨rebuilt.1, fun other set delay isSet => ?_⟩,
            fun other => ?_⟩
          · rw [sets] at isSet
            split at isSet
            · cases isSet
              intro unrepresentable
              simp [deadline, unrepresentable] at otherDeadline
            · cases isSet
          · rw [lastSet_concat, sets, contents]
            by_cases same : key = other
            · subst same
              rw [if_pos rfl, Function.update_self, Function.update_self]
              exact .set value isDeadline otherDeadline before
            · rw [if_neg same, Function.update_of_ne (Ne.symm same),
                Function.update_of_ne (Ne.symm same)]
              exact waited other
      | increment =>
        have setsNothing (other : Bytes) : asked.sets other = none := by
          rw [Asked.sets, isAsked]
        simp only [KeyOp.act, Option.map_some]
        refine ⟨representable_concat.mpr ⟨rebuilt.1, fun other set delay isSet => ?_⟩,
          fun other => ?_⟩
        · rw [setsNothing] at isSet
          cases isSet
        · rw [lastSet_concat, setsNothing, contents]
          by_cases same : other = key
          · subst same
            rw [Function.update_self, Function.update_self]
            have counted := (waited other).increment
            rw [KeyOp.act, Option.some.injEq] at acted
            rw [acted] at counted
            exact counted
          · rw [Function.update_of_ne same, Function.update_of_ne same]
            exact waited other
      | get => cases wrote
      | _ => exact onKey.elim

theorem Course.Dated.wait (dated : course.Dated replay now records) {later : Instant}
    (earlier : now ≤ later) (before : later ≤ replay) : course.Dated replay later records where
  log := dated.log
  spelled := dated.spelled
  rebuilt := by
    have rebuilt := dated.rebuilt
    split
    · rename_i panics
      rw [panics] at rebuilt
      exact rebuilt
    · rename_i space isSpace
      rw [isSpace] at rebuilt
      exact ⟨rebuilt.1, fun key => (rebuilt.2 key).wait earlier before⟩

omit [Platform] in
/-- A method on a string that does not write leaves the cell it finds. -/
theorem KeyOp.OnString.unwritten {op : KeyOp} (onString : op.OnString) {clock : Clock}
    {cell after : Option Cell} {reply : op.Reply}
    (acted : op.act clock cell = some (after, reply)) (unwritten : op.wrote reply = false) :
    after = cell ∧ ∀ value expiresIn, op ≠ .set value expiresIn := by
  cases op with
  | set value expiresIn => cases unwritten
  | get =>
    cases acted
    exact ⟨rfl, by simp⟩
  | increment =>
    rw [KeyOp.act, Option.some.injEq] at acted
    have refused : ∃ error, reply = .error error := by
      rcases reply with error | number
      · exact ⟨error, rfl⟩
      · cases unwritten
    obtain ⟨error, rfl⟩ := refused
    refine ⟨?_, by simp⟩
    rw [← Cell.increment_error (congrArg Prod.snd acted), acted]
  | _ => exact onString.elim

/-- One more command on a string. -/
theorem Course.Dated.step (recording : server.recording) (dated : course.Dated replay now records)
    (earlier : now ≤ asked.clock.now) (before : asked.clock.now ≤ replay)
    (trusted : asked.client.Trusted) (received : Received asked.found)
    (parsed : Command.parse asked.found = .ok command) (onString : command.OnString) :
    ∃ next more, course.step server asked = some next ∧
      next.Dated replay asked.clock.now (records ++ more) := by
  rcases string_program onString with ⟨noTarget, value, isError, runs⟩ |
    ⟨key, op, reply, isTarget, onKey, written, unwritten, runs⟩
  · have setsNothing (other : Bytes) : asked.sets other = none := by
      simp only [Asked.sets, Asked.target, parsed, noTarget]
    refine ⟨_, [], Course.step_refused trusted parsed (unsteered_string onString _)
      onString.ne_psync isError (runs server asked.client), ?_⟩
    rw [List.append_nil]
    exact dated.unrecorded earlier before setsNothing rfl (fun _ => .inl rfl) _
  · have stepped := @Course.step_asks server command _ course asked trusted parsed
      (unsteered_string onString _) onString.ne_psync key op reply (runs server asked.client)
    have contents := @State.performOn_contents asked.clock course.world.store key op onKey
    cases performed : course.world.store.performOn asked.clock key op with
    | none =>
      rw [performed] at stepped
      exact ⟨course, [], stepped, by simpa using dated.wait earlier before⟩
    | some result =>
      obtain ⟨after, answered⟩ := result
      rw [performed] at stepped contents
      obtain ⟨world, isNext, unnoted, noted⟩ := stepped
      obtain ⟨cell, acted, isAfter⟩ := contents
      cases wrote : op.wrote answered with
      | true =>
        obtain ⟨noError, isWritten⟩ := written answered wrote
        have isNoted := noted _ noError isWritten
        refine ⟨_, [command.name :: command.args], isNext, ?_⟩
        refine dated.recorded earlier before parsed onString received isTarget onKey wrote acted
          ?_ ?_ _
        · rw [isNoted.log, if_pos recording]
        · rw [isNoted.store]
          exact isAfter
      | false =>
        obtain ⟨rfl, notSet⟩ := onKey.unwritten acted wrote
        have setsNothing (other : Bytes) : asked.sets other = none := by
          simp only [Asked.sets, Asked.target, parsed, isTarget]
          cases op <;> first | rfl | exact absurd rfl (notSet _ _)
        refine ⟨_, [], isNext, ?_⟩
        rw [List.append_nil, unnoted (unwritten answered wrote)]
        refine dated.unrecorded earlier before setsNothing ?_ (fun other => ?_) _
        · rfl
        · dsimp only
          rw [isAfter]
          by_cases same : other = key
          · subst same
            exact .inr (Function.update_self _ _ _)
          · exact .inl (Function.update_of_ne same _ _)

/-- Done again at one moment, whatever else the clocks read. -/
theorem foldlM_carryWordsAt {clocks : List Clock} (sameLength : clocks.length = records.length)
    (isReplay : ∀ clock ∈ clocks, clock.now = replay) (space : Keyspace) :
    (clocks.zip records).foldlM (fun space one => carryWordsAt one.1.now one.2 space) space =
      records.foldlM (fun space words => carryWordsAt replay words space) space := by
  induction records generalizing clocks space with
  | nil => rw [List.length_eq_zero_iff.mp sameLength]; rfl
  | cons words records ih =>
    obtain ⟨clock, clocks, rfl⟩ := List.exists_cons_of_length_eq_add_one sameLength
    rw [List.zip_cons_cons, List.foldlM_cons, List.foldlM_cons, isReplay clock (by simp)]
    exact congrArg (Option.bind _) (funext fun next => ih (by simpa using sameLength)
      (fun other member => isReplay other (by simp [member])) next)

theorem Course.Dated.run (recording : server.recording) {asked : List Asked}
    (trusted : ∀ one ∈ asked, one.client.Trusted) (received : ∀ one ∈ asked, Received one.found)
    (onString : ∀ one ∈ asked, ∃ command, Command.parse one.found = .ok command ∧
      command.OnString)
    (increasing : asked.Pairwise fun earlier later => earlier.clock.now ≤ later.clock.now)
    (dated : course.Dated replay now records) (earlier : ∀ one ∈ asked, now ≤ one.clock.now)
    (before : ∀ one ∈ asked, one.clock.now ≤ replay) (past : now ≤ replay) :
    ∃ last all, Run.after (Course.step server) course asked = some last ∧
      last.Dated replay replay all := by
  induction asked generalizing course now records with
  | nil => exact ⟨course, records, rfl, dated.wait past le_rfl⟩
  | cons one asked ih =>
    obtain ⟨command, parsed, isString⟩ := onString one (by simp)
    obtain ⟨next, more, stepped, datedNext⟩ := dated.step recording (earlier one (by simp))
      (before one (by simp)) (trusted one (by simp)) (received one (by simp)) parsed isString
    obtain ⟨first, rest⟩ := List.pairwise_cons.mp increasing
    obtain ⟨last, all, ran, datedLast⟩ := ih (fun other member => trusted other (by simp [member]))
      (fun other member => received other (by simp [member]))
      (fun other member => onString other (by simp [member])) rest datedNext first
      (fun other member => before other (by simp [member])) (before one (by simp))
    exact ⟨last, all, by rw [Run.after, stepped]; exact ran, datedLast⟩

/-- The replay can stand for every deadline, and each key that was last set to live for a while
was set at the moment of the replay. -/
def Course.Timely (replay : Instant) (course : Course) : Prop :=
  Representable replay course.answers ∧ ∀ key set delay,
    lastSet key course.answers = some (set, some delay) → delay = 0 ∨ set = replay

/-- A run of `SET`, `INCR` and `GET` at times that do not go back, and the log done again at a
time not before its end: from then on the same keys are live in what comes up as in the
original, and hold the same, exactly when the run was timely. -/
theorem deadlines_kept_iff (server : Server) (recording : server.recording) (asked : List Asked)
    (trusted : ∀ one ∈ asked, one.client.Trusted) (received : ∀ one ∈ asked, Received one.found)
    (onString : ∀ one ∈ asked, ∃ command, Command.parse one.found = .ok command ∧
      command.OnString)
    (increasing : asked.Pairwise fun earlier later => earlier.clock.now ≤ later.clock.now)
    (replay : Instant) (before : ∀ one ∈ asked, one.clock.now ≤ replay) (later : Nat → Env)
    (isReplay : ∀ n, (later n).clock.now = replay) :
    ∃ course, Run.after (Course.step server) { world := {} } asked = some course ∧
      ((∃ commands last replayed, Aof.recorded course.world.log = .ok commands ∧
        (RedisServer.replay { server with recording := false } {} 0 commands).exec machine later 0
          { log := course.world.log } = .done last replayed ∧
        ∀ moment key, replay ≤ moment → (last.2.store.live moment key).map Entry.data =
          (course.world.store.live moment key).map Entry.data) ↔ course.Timely replay) := by
  have start : Course.Dated replay 0 [] { world := {} } :=
    ⟨rfl, by simp, by simp [Representable], fun key => .steady nofun nofun⟩
  obtain ⟨course, records, ran, dated⟩ := start.run recording trusted received onString increasing
    (fun _ _ => Nat.zero_le _) before (Nat.zero_le _)
  refine ⟨course, ran, ?_⟩
  have readBack := Aof.recorded_encodeAll fun words member => (dated.spelled words member).1
  rw [← dated.log] at readBack
  have empty : (World.store { log := course.world.log }).contents = fun _ => none := by
    funext key
    rfl
  obtain ⟨clocks, sameLength, read, ends⟩ := carryOutOn_does
    (fun words member => by
      obtain ⟨command, parsed, isString⟩ := (dated.spelled words member).2
      exact @does_string _ { server with recording := false } {} command words ⟨rfl, rfl, rfl⟩
        parsed isString) later 0 empty
  have clocksRead (clock : Clock) (member : clock ∈ clocks) : clock.now = replay := by
    obtain ⟨n, rfl⟩ := read clock member
    exact isReplay n
  rw [foldlM_carryWordsAt sameLength clocksRead, ← rebuiltAt] at ends
  have replays := @replay_exec _ { server with recording := false } later
    (records.map asCommand) 0 0 { log := course.world.log } {}
  have rebuilt := dated.rebuilt
  cases isSpace : rebuiltAt replay records with
  | none =>
    rw [isSpace] at ends rebuilt
    rw [ends] at replays
    refine ⟨?_, fun timely => absurd timely.1 rebuilt⟩
    rintro ⟨commands, last, replayed, isRead, comesUp, -⟩
    obtain rfl := Except.ok.inj (readBack.symm.trans isRead)
    exact absurd comesUp (replays last replayed)
  | some space =>
    rw [isSpace] at ends rebuilt
    obtain ⟨last, isLast, contents⟩ := ends
    rw [isLast] at replays
    obtain ⟨replayed, comesUp⟩ := replays
    have data (state : State) (moment : Instant) (key : Bytes) :
        (state.live moment key).map Entry.data =
          (Cell.unexpired moment (state.contents key)).map Cell.data := by
      rw [← State.live_cell, Option.map_map]
      rfl
    have alike : (∀ moment key, replay ≤ moment → (last.2.store.live moment key).map Entry.data =
        (course.world.store.live moment key).map Entry.data) ↔ course.Timely replay := by
      simp only [data, contents]
      rw [forall_comm, Course.Timely, and_iff_right rebuilt.1]
      exact forall_congr' fun key => (rebuilt.2 key).alike_iff le_rfl
    rw [← alike]
    constructor
    · rintro ⟨commands, other, times, isRead, comesUpToo, same⟩
      obtain rfl := Except.ok.inj (readBack.symm.trans isRead)
      rw [comesUp] at comesUpToo
      cases comesUpToo
      exact same
    · exact fun same => ⟨_, _, _, readBack, comesUp, same⟩

end

/-- A key that is counted up, and one that is set to live for ten seconds. -/
def timelyRun : List Asked :=
  [⟨{}, ⟨3, 0⟩, typed ["SET", "n", "1"]⟩, ⟨{}, ⟨5, 0⟩, typed ["INCR", "n"]⟩,
    ⟨{}, ⟨7, 0⟩, typed ["SET", "t", "x", "EX", "10"]⟩]

omit [Platform] in
theorem deadlines_kept_timely : ∃ course, Run.after (@Course.step .ascii {}) { world := {} }
      timelyRun = some course ∧
    ∃ commands last replayed, Aof.recorded course.world.log = .ok commands ∧
      (@replay .ascii { recording := false } {} 0 commands).exec machine
        (fun _ => { clock := ⟨7, 0⟩ }) 0 { log := course.world.log } = .done last replayed ∧
      ∀ moment key, 7 ≤ moment → (last.2.store.live moment key).map Entry.data =
        (course.world.store.live moment key).map Entry.data := by
  let _ := Platform.ascii
  have trusted : ∀ one ∈ timelyRun, one.client.Trusted := by
    simp only [timelyRun, List.forall_mem_cons]
    exact ⟨⟨rfl, rfl, rfl⟩, ⟨rfl, rfl, rfl⟩, ⟨rfl, rfl, rfl⟩, by simp⟩
  have received : ∀ one ∈ timelyRun, Received one.found := by
    simp only [timelyRun, List.forall_mem_cons]
    exact ⟨typed_received (by simp) (by decide) (by decide +kernel),
      typed_received (by simp) (by decide) (by decide +kernel),
      typed_received (by simp) (by decide) (by decide +kernel), by simp⟩
  have onString : ∀ one ∈ timelyRun, ∃ command, Command.parse one.found = .ok command ∧
      command.OnString := by
    simp only [timelyRun, List.forall_mem_cons]
    exact ⟨⟨_, rfl, .inl (by decide +kernel)⟩, ⟨_, rfl, .inr (.inl (by decide +kernel))⟩,
      ⟨_, rfl, .inl (by decide +kernel)⟩, by simp⟩
  obtain ⟨course, ran, same⟩ := deadlines_kept_iff {} rfl timelyRun trusted received onString
    (by decide) 7 (by decide) (fun _ => { clock := ⟨7, 0⟩ }) (fun _ => rfl)
  refine ⟨course, ran, same.mpr ?_⟩
  have answered : course.answers.map Prod.fst = timelyRun := by
    cases ran
    rfl
  have sets (key : Bytes) : timelyRun.map (Asked.sets key) =
      [if utf8 "n" = key then some (3, none) else none, none,
        if utf8 "t" = key then some (7, some 10000000000) else none] := rfl
  have only {answer : Asked × Answer} (member : answer ∈ course.answers) {key : Bytes}
      {set : Instant} {delay : Duration} (isSet : answer.1.sets key = some (set, some delay)) :
      set = 7 ∧ delay = 10000000000 := by
    have isAsked := List.mem_map_of_mem (f := Prod.fst) member
    rw [answered] at isAsked
    have found := List.mem_map_of_mem (f := Asked.sets key) isAsked
    rw [sets, isSet] at found
    simp only [List.mem_cons, List.not_mem_nil, or_false] at found
    rcases found with first | second | third
    · split at first <;> cases first
    · cases second
    · split at third <;> cases third
      exact ⟨rfl, rfl⟩
  refine ⟨fun answer member key set delay isSet => ?_, fun key set delay isLast => ?_⟩
  · obtain ⟨-, rfl⟩ := only member isSet
    decide
  · obtain ⟨answer, member, isSet⟩ := List.exists_of_findSome?_eq_some isLast
    exact .inr (only (List.mem_reverse.mp member) isSet).1

omit [Platform] in
/-- A key set to live for ten seconds is gone after twenty, and live again in what comes up. -/
theorem deadlines_start_anew : ∃ course commands last replayed,
    Run.after (@Course.step .ascii {}) { world := {} }
        [⟨{}, ⟨0, 0⟩, typed ["SET", "t", "x", "EX", "10"]⟩] = some course ∧
      Aof.recorded course.world.log = .ok commands ∧
      (@replay .ascii { recording := false } {} 0 commands).exec machine
        (fun _ => { clock := ⟨20000000000, 0⟩ }) 0 { log := course.world.log } =
          .done last replayed ∧
      (course.world.store.live 20000000000 (utf8 "t")).map Entry.data = none ∧
      (last.2.store.live 20000000000 (utf8 "t")).map Entry.data = some (.string (utf8 "x")) :=
  ⟨_, _, _, _, rfl, rfl, rfl, by decide +kernel, by decide +kernel⟩

end RedisServer
