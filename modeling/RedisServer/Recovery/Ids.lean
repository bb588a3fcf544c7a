import RedisServer.Recovery.Missed
import RedisServer.Recovery.Timed
import RedisServer.Store.Numbering

/-!
# What becomes of generated ids

An `XADD` is recorded as it came in, so that one that leaves its id to the server is given
an id anew whenever it is done again.  The streams that come up hold the ids the clients
were answered exactly when no such id could have been any other: its millisecond was the
last there is.
-/

namespace RedisServer

variable {unix : UInt64} {words : List Bytes} {state : State} {id : EntryId}
  {asked : List (UInt64 × List Bytes)}

/-! ## Streams and what is appended to them -/

/-- The stream at each key, an absent one being empty. -/
abbrev Logs := Bytes → List StreamEntry

/-- The keyspace that holds these streams and nothing else. -/
def Logs.cells (logs : Logs) : Keyspace := fun key =>
  if logs key = [] then none else some ⟨.stream (logs key), none⟩

/-- An entry to be appended: where, under what id, and with what fields. -/
structure Adding where
  key : Bytes
  requested : RequestedId
  fields : List (Bytes × Bytes)

/-- The millisecond an id left to the server falls in. -/
def generated (unix : UInt64) : Option EntryId → UInt64
  | none => unix
  | some last => if unix < last.milliseconds then last.milliseconds else unix

/-- The last millisecond there is. -/
def lastMillisecond : UInt64 := UInt64.ofNat u64Max

namespace Adding

/-- The id an entry is appended under, if it is taken, and the streams then. -/
def append (unix : UInt64) (adding : Adding) (logs : Logs) : Option (EntryId × Logs) :=
  if State.xadd.belowZero adding.requested then none
  else
    (Cell.append unix adding.requested adding.fields (logs adding.key)).toOption.map
      fun (id, stream) => (id, Function.update logs adding.key stream)

/-- The last id of the stream an entry goes to. -/
def top (adding : Adding) (logs : Logs) : Option EntryId :=
  (logs adding.key).getLast?.map StreamEntry.id

/-- An entry whose id is left to the server is refused, or the clock or the stream has got to
the last millisecond there is. -/
def Sure (unix : UInt64) (adding : Adding) (logs : Logs) : Prop :=
  adding.requested = .auto → adding.append unix logs = none ∨ unix = lastMillisecond ∨
    ∃ last ∈ adding.top logs, last.milliseconds = lastMillisecond

variable {other : UInt64} {adding : Adding} {logs next : Logs}

theorem append_eq_some (taken : adding.append unix logs = some (id, next)) :
    resolve unix adding.requested (adding.top logs) = .ok id ∧
      next = Function.update logs adding.key (logs adding.key ++ [⟨id, adding.fields⟩]) := by
  unfold append at taken
  split at taken
  · cases taken
  · rw [Cell.append, ← top] at taken
    cases resolved : resolve unix adding.requested (adding.top logs) with
    | error error => simp [resolved, Except.toOption] at taken
    | ok found =>
      simp only [resolved] at taken
      split at taken
      · cases taken
      · cases taken
        exact ⟨rfl, rfl⟩

/-- An entry is taken or not by what its id is resolved to alone. -/
theorem append_congr (same : resolve unix adding.requested (adding.top logs) =
    resolve other adding.requested (adding.top logs)) :
    adding.append unix logs = adding.append other logs := by
  unfold top at same
  simp only [append, Cell.append, same]

end Adding

theorem le_lastMillisecond (unix : UInt64) : unix ≤ lastMillisecond := by
  rw [UInt64.le_iff_toNat_le]
  exact Nat.le_of_lt_succ unix.toNat_lt

theorem resolve_auto (unix : UInt64) (top : Option EntryId) :
    resolve unix .auto top = resolve.next top (generated unix top) := by
  cases top <;> rfl

theorem milliseconds_of_resolve {top : Option EntryId}
    (resolved : resolve unix .auto top = .ok id) : id.milliseconds = generated unix top := by
  rw [resolve_auto] at resolved
  unfold resolve.next at resolved
  split at resolved
  · split at resolved
    · split at resolved
      · cases resolved
      · cases resolved
        rfl
    · cases resolved
      rfl
  · cases resolved
    rfl

/-- A generated id falls into the last millisecond if the clock or the stream has got there. -/
theorem generated_eq_last {top : Option EntryId} :
    generated unix top = lastMillisecond ↔
      unix = lastMillisecond ∨ ∃ last ∈ top, last.milliseconds = lastMillisecond := by
  cases top with
  | none => simp [generated]
  | some last =>
    have clockFits := le_lastMillisecond unix
    have topFits := le_lastMillisecond last.milliseconds
    simp only [generated, Option.mem_some_iff, exists_eq_left']
    split <;> grind

namespace Adding

variable {other : UInt64} {adding : Adding} {logs next : Logs}

/-- A sure id is the same at any later time. -/
theorem Sure.append_later (sure : adding.Sure unix logs) (later : unix ≤ other)
    (taken : adding.append unix logs = some (id, next)) :
    adding.append other logs = some (id, next) := by
  rw [← taken]
  apply append_congr
  by_cases isAuto : adding.requested = .auto
  · have atLast := generated_eq_last.mpr ((sure isAuto).resolve_left (by simp [taken]))
    rw [isAuto]
    have stillLast : generated other (adding.top logs) = lastMillisecond := by
      refine generated_eq_last.mpr ((generated_eq_last.mp atLast).imp_left ?_)
      rintro rfl
      exact UInt64.le_antisymm (le_lastMillisecond other) later
    rw [resolve_auto, resolve_auto, atLast, stillLast]
  · exact resolve_of_ne_auto isAuto _ _ _

/-- An id that is the same at the end of time was sure. -/
theorem sure_of_append_last {after : Logs} (taken : adding.append unix logs = some (id, next))
    (last : adding.append lastMillisecond logs = some (id, after)) : adding.Sure unix logs := by
  intro isAuto
  have resolved := (append_eq_some taken).1
  have atLast := (append_eq_some last).1
  rw [isAuto] at resolved atLast
  refine .inr (generated_eq_last.mp ?_)
  rw [← milliseconds_of_resolve resolved, milliseconds_of_resolve atLast]
  exact generated_eq_last.mpr (.inl rfl)

end Adding

/-! ## Runs of `XADD`s -/

variable [Platform]

/-- The entry a command appends. -/
def Command.adding (command : Command) : Option Adding :=
  match command.target with
  | some (key, .xadd requested fields) => some ⟨key, requested, fields⟩
  | _ => none

/-- The entry words append. -/
def addingOf (words : List Bytes) : Option Adding :=
  match Command.parse (asCommand words) with
  | .ok command => command.adding
  | .error _ => none

namespace Logs

/-- What words come to at a time, if they are taken. -/
def take (unix : UInt64) (words : List Bytes) (logs : Logs) : Option (EntryId × Logs) :=
  (addingOf words).bind fun adding => adding.append unix logs

/-- The streams once words have been tried. -/
def carry (unix : UInt64) (words : List Bytes) (logs : Logs) : Logs :=
  ((take unix words logs).map Prod.snd).getD logs

/-- The words that are taken, each at its time. -/
def taken : List (UInt64 × List Bytes) → Logs → List (List Bytes)
  | [], _ => []
  | (unix, words) :: asked, logs =>
    if (take unix words logs).isSome then words :: taken asked (carry unix words logs)
    else taken asked (carry unix words logs)

/-- The streams once all words have been tried, each at its time. -/
def carryAll (asked : List (UInt64 × List Bytes)) (logs : Logs) : Logs :=
  asked.foldl (fun logs one => carry one.1 one.2 logs) logs

@[simp] theorem carryAll_cons (one : UInt64 × List Bytes) (asked : List (UInt64 × List Bytes))
    (logs : Logs) : carryAll (one :: asked) logs = carryAll asked (carry one.1 one.2 logs) := rfl

/-- Every id that is left to the server is sure. -/
def AllSure : List (UInt64 × List Bytes) → Logs → Prop
  | [], _ => True
  | (unix, words) :: asked, logs =>
    (∀ adding, addingOf words = some adding → adding.Sure unix logs) ∧
      AllSure asked (carry unix words logs)

theorem carry_of_none {logs : Logs} (refused : take unix words logs = none) :
    carry unix words logs = logs := by
  rw [carry, refused]
  rfl

theorem carry_of_some {logs next : Logs} (isTaken : take unix words logs = some (id, next)) :
    carry unix words logs = next := by
  rw [carry, isTaken]
  rfl

/-- Sure ids come out the same at any later times. -/
theorem carryAll_later {logs : Logs} (sure : AllSure asked logs) {clocks : List UInt64}
    (sameLength : clocks.length = (taken asked logs).length)
    (later : ∀ clock ∈ clocks, ∀ one ∈ asked, one.1 ≤ clock) :
    carryAll (clocks.zip (taken asked logs)) logs = carryAll asked logs := by
  induction asked generalizing logs clocks with
  | nil => simp [taken, carryAll]
  | cons one asked ih =>
    obtain ⟨unix, words⟩ := one
    cases isTaken : take unix words logs with
    | none =>
      have rest : taken ((unix, words) :: asked) logs = taken asked logs := by
        simp [taken, isTaken, carry_of_none isTaken]
      have same := carry_of_none isTaken
      rw [rest] at sameLength ⊢
      rw [carryAll_cons, same]
      exact ih (same ▸ sure.2) sameLength fun clock isClock other member =>
        later clock isClock other (by simp [member])
    | some result =>
      obtain ⟨id, next⟩ := result
      have same := carry_of_some isTaken
      have rest : taken ((unix, words) :: asked) logs = words :: taken asked next := by
        simp [taken, isTaken, same]
      rw [rest] at sameLength ⊢
      obtain ⟨clock, clocks, rfl⟩ := List.exists_cons_of_length_eq_add_one sameLength
      obtain ⟨adding, isAdding, appended⟩ := Option.bind_eq_some_iff.mp isTaken
      have takenLater : take clock words logs = some (id, next) := by
        rw [take, isAdding]
        exact (sure.1 adding isAdding).append_later
          (later clock (by simp) (unix, words) (by simp)) appended
      rw [List.zip_cons_cons, carryAll_cons, carryAll_cons, same, carry_of_some takenLater]
      exact ih (same ▸ sure.2) (by simpa using sameLength) fun other isOther one member =>
        later other (by simp [isOther]) one (by simp [member])

theorem exists_adding {logs next : Logs} (isTaken : take unix words logs = some (id, next)) :
    ∃ adding, addingOf words = some adding ∧ adding.append unix logs = some (id, next) ∧
      next = Function.update logs adding.key (logs adding.key ++ [⟨id, adding.fields⟩]) := by
  obtain ⟨adding, isAdding, appended⟩ := Option.bind_eq_some_iff.mp isTaken
  exact ⟨adding, isAdding, appended, (Adding.append_eq_some appended).2⟩

/-- If doing what was taken again at the end of time comes to the same streams, it started from
the same streams and every id was sure.  Streams that are no longer to begin with come out
as long only if nothing is refused on the way. -/
theorem sure_of_carryAll {logs other : Logs}
    (shorter : ∀ key, (other key).length ≤ (logs key).length)
    (same : carryAll ((taken asked logs).map fun words => (lastMillisecond, words)) other =
      carryAll asked logs) : other = logs ∧ AllSure asked logs := by
  induction asked generalizing logs other with
  | nil => exact ⟨same, True.intro⟩
  | cons one asked ih =>
    obtain ⟨unix, words⟩ := one
    cases isTaken : take unix words logs with
    | none =>
      have unchanged := carry_of_none isTaken
      have rest : taken ((unix, words) :: asked) logs = taken asked logs := by
        simp [taken, isTaken, unchanged]
      rw [rest, carryAll_cons, unchanged] at same
      obtain ⟨isSame, sure⟩ := ih shorter same
      refine ⟨isSame, fun adding isAdding isAuto => .inl ?_, unchanged.symm ▸ sure⟩
      simpa [take, isAdding] using isTaken
    | some result =>
      obtain ⟨id, next⟩ := result
      have isNext := carry_of_some isTaken
      have rest : taken ((unix, words) :: asked) logs = words :: taken asked next := by
        simp [taken, isTaken, isNext]
      rw [rest, List.map_cons, carryAll_cons, carryAll_cons, isNext] at same
      obtain ⟨adding, isAdding, appended, rfl⟩ := exists_adding isTaken
      cases again : take lastMillisecond words other with
      | none =>
        -- refused this time: one entry is missing from here on
        rw [carry_of_none again] at same
        have stillShorter (key : Bytes) : (other key).length ≤
            (Function.update logs adding.key
              (logs adding.key ++ [⟨id, adding.fields⟩]) key).length := by
          refine (shorter key).trans ?_
          by_cases isKey : key = adding.key
          · subst isKey
            rw [Function.update_self, List.length_append]
            exact Nat.le_add_right _ _
          · rw [Function.update_of_ne isKey]
        have long := shorter adding.key
        rw [(ih stillShorter same).1, Function.update_self, List.length_append] at long
        simp at long
      | some result =>
        obtain ⟨idAgain, nextAgain⟩ := result
        obtain ⟨adding', isAdding', appendedAgain, rfl⟩ := exists_adding again
        obtain rfl : adding = adding' := Option.some.inj (isAdding.symm.trans isAdding')
        rw [carry_of_some again] at same
        have stillShorter (key : Bytes) :
            (Function.update other adding.key
              (other adding.key ++ [⟨idAgain, adding.fields⟩]) key).length ≤
            (Function.update logs adding.key
              (logs adding.key ++ [⟨id, adding.fields⟩]) key).length := by
          by_cases isKey : key = adding.key
          · subst isKey
            rw [Function.update_self, Function.update_self, List.length_append,
              List.length_append]
            exact Nat.add_le_add_right (shorter adding.key) 1
          · rw [Function.update_of_ne isKey, Function.update_of_ne isKey]
            exact shorter key
        obtain ⟨isSame, sure⟩ := ih stillShorter same
        have atKey := congrFun isSame adding.key
        rw [Function.update_self, Function.update_self] at atKey
        obtain ⟨sameStream, sameEntry⟩ := List.append_inj' atKey rfl
        obtain rfl : idAgain = id := by simpa using sameEntry
        have isOther : other = logs := by
          funext key
          by_cases isKey : key = adding.key
          · rw [isKey, sameStream]
          · have atOther := congrFun isSame key
            rwa [Function.update_of_ne isKey, Function.update_of_ne isKey] at atOther
        subst isOther
        refine ⟨rfl, fun found isFound => ?_, isNext.symm ▸ sure⟩
        obtain rfl : adding = found := Option.some.inj (isAdding.symm.trans isFound)
        exact Adding.sure_of_append_last appended appendedAgain

end Logs

/-! ## Streams in the store -/

omit [Platform] in
theorem Logs.cells_update (logs : Logs) (key : Bytes) (stream : List StreamEntry) :
    Logs.cells (Function.update logs key stream) =
      Function.update logs.cells key
        (if stream = [] then none else some ⟨.stream stream, none⟩) := by
  funext other
  by_cases same : other = key
  · subst same
    simp [Logs.cells]
  · simp [Logs.cells, Function.update_of_ne same]

omit [Platform] in
theorem Logs.xadd_cells (logs : Logs) (unix : UInt64) {requested : RequestedId}
    (above : ¬ State.xadd.belowZero requested) (fields : List (Bytes × Bytes)) (key : Bytes) :
    Cell.xadd unix requested fields (logs.cells key) =
      match Cell.append unix requested fields (logs key) with
      | .error error => (logs.cells key, .error error)
      | .ok (id, stream) => (some ⟨.stream stream, none⟩, .ok id) := by
  by_cases absent : logs key = []
  · cases appended : Cell.append unix requested fields [] <;>
      simp [Cell.xadd, Logs.cells, absent, above, appended]
  · cases appended : Cell.append unix requested fields (logs key) <;>
      simp [Cell.xadd, Logs.cells, absent, above, appended]

omit [Platform] in
/-- Appending to a key is appending to its stream. -/
theorem Adding.xadd_cells (adding : Adding) (unix : UInt64) (logs : Logs) :
    match adding.append unix logs with
    | none => ∃ error, Cell.xadd unix adding.requested adding.fields (logs.cells adding.key) =
        (logs.cells adding.key, .error error)
    | some (id, next) => ∃ cell, Cell.xadd unix adding.requested adding.fields
        (logs.cells adding.key) = (cell, .ok id) ∧
          next.cells = Function.update logs.cells adding.key cell := by
  unfold Adding.append
  by_cases below : State.xadd.belowZero adding.requested
  · rw [if_pos below]
    exact ⟨_, by rw [Cell.xadd.eq_def, if_pos below]⟩
  · rw [if_neg below, logs.xadd_cells unix below]
    cases appended : Cell.append unix adding.requested adding.fields (logs adding.key) with
    | error error => exact ⟨error, rfl⟩
    | ok result =>
      obtain ⟨id, stream⟩ := result
      have nonempty : stream ≠ [] := by
        unfold Cell.append at appended
        dsimp only at appended
        split at appended
        · cases appended
        · split at appended
          · cases appended
          · cases appended
            simp
      refine ⟨_, rfl, ?_⟩
      rw [Logs.cells_update, if_neg nonempty]

omit [Platform] in
theorem Logs.undated {logs : Logs} (held : state.contents = logs.cells) :
    state.Undated := by
  intro key entry found
  have isCell : logs.cells key = some entry.cell := by
    rw [← held, State.contents, found]
    rfl
  unfold Logs.cells at isCell
  split at isCell
  · cases isCell
  · exact (congrArg Cell.expiresAt (Option.some.inj isCell)).symm

omit [Platform] in
/-- Appending to what the store holds is appending to its streams. -/
theorem State.performOn_adding {logs : Logs} (held : state.contents = logs.cells) (adding : Adding)
    (clock : Clock) :
    ∃ after reply, state.performOn clock adding.key (.xadd adding.requested adding.fields) =
        some (after, reply) ∧
      match adding.append clock.unix logs with
      | none => (∃ error, reply = .error error) ∧ after.contents = logs.cells
      | some (id, next) => reply = .ok id ∧ after.contents = next.cells := by
  have acts := @xadd_acts clock state adding.key adding.requested adding.fields
  obtain ⟨cell, acted, changed⟩ := acts.contents (Logs.undated held)
  refine ⟨_, _, rfl, ?_⟩
  have cells := adding.xadd_cells clock.unix logs
  rw [held] at acted changed
  rw [KeyOp.act, Option.some.injEq] at acted
  split
  · rename_i refused
    rw [refused] at cells
    obtain ⟨error, isError⟩ := cells
    obtain ⟨rfl, isReply⟩ := Prod.mk.inj (isError.symm.trans acted)
    exact ⟨⟨error, isReply.symm⟩, changed.trans (Function.update_eq_self _ _)⟩
  · rename_i id next taken
    rw [taken] at cells
    obtain ⟨found, isFound, isNext⟩ := cells
    obtain ⟨rfl, isReply⟩ := Prod.mk.inj (isFound.symm.trans acted)
    exact ⟨isReply.symm, changed.trans isNext.symm⟩

/-! ## The command -/

/-- An `XADD` is refused outright, or asks for one entry to be appended. -/
theorem xadd_program {command : Command} (isXadd : command.uppercased = "XADD") :
    (command.adding = none ∧ ∃ value : Value, value.isError ∧
      ∀ server client, runAgainst server client command = client.kept (.ret value)) ∨
    ∃ (adding : Adding) (reply : Except XaddError EntryId → Value),
      command.adding = some adding ∧ (∀ id, reply (.ok id) = bulk id.toText) ∧
      (∀ error, (reply (.error error)).isError) ∧
      ∀ server client, runAgainst server client command =
        client.kept (ask (.on adding.key (.xadd adding.requested adding.fields)) reply) := by
  obtain ⟨program, -, found, runs⟩ := runAgainst_recorded (show recordedAsSent command.uppercased by
    rw [isXadd]
    rfl)
  have target : command.target = askedOf program := by
    simp only [Command.target, found, Option.bind_some]
  rw [Command.adding, target]
  obtain ⟨uppercased, name, args⟩ := command
  obtain rfl : uppercased = "XADD" := isXadd
  rcases args with _ | ⟨key, _ | ⟨id, _ | ⟨field, fields⟩⟩⟩
  · cases found
    exact .inl ⟨rfl, _, rfl, runs⟩
  · cases found
    exact .inl ⟨rfl, _, rfl, runs⟩
  · cases found
    exact .inl ⟨rfl, _, rfl, runs⟩
  · change some (if (field :: fields).length % 2 = 0 then Streams.xadd key id (field :: fields)
      else .ret (wrongArity "xadd")) = some program at found
    split at found
    · unfold Streams.xadd at found
      split at found
      · cases found
        exact .inl ⟨rfl, _, rfl, runs⟩
      · rename_i requested _
        cases found
        refine .inr ⟨⟨key, requested, Streams.pairs (field :: fields)⟩, _, rfl, fun _ => rfl, ?_,
          runs⟩
        intro error
        cases error <;> rfl
    · cases found
      exact .inl ⟨rfl, _, rfl, runs⟩

/-- The store holds these streams and nothing else. -/
def Logs.HeldBy (logs : Logs) (state : State) : Prop := state.contents = logs.cells

section

variable {server : Server} {client : Client} {command : Command}

theorem addingOf_parsed (parsed : Command.parse (asCommand words) = .ok command) :
    addingOf words = command.adding := by
  rw [addingOf, parsed]

omit [Platform] in
theorem unsteered_xadd (isXadd : command.uppercased = "XADD") (transaction : Transaction) :
    Transactions.steersATransaction command.uppercased = false ∧
      Transactions.steer command transaction = none :=
  unsteered_of_recorded (by rw [isXadd]; rfl) transaction

/-- An `XADD` done again appends to the streams at what the clock then reads. -/
theorem does_xadd (trusted : client.Trusted)
    (parsed : Command.parse (asCommand words) = .ok command)
    (isXadd : command.uppercased = "XADD") :
    Does Logs.HeldBy (fun clock words logs => some (logs.carry clock.unix words)) server client
      words := by
  intro supply count world logs held
  have notPsync : ¬ command.uppercased = "PSYNC" := by
    rw [isXadd]
    decide
  dsimp only
  rcases xadd_program isXadd with ⟨noAdding, value, isError, runs⟩ |
    ⟨adding, reply, isAdding, -, -, runs⟩
  · have same : logs.carry (supply count).clock.unix words = logs :=
      Logs.carry_of_none (by rw [Logs.take, addingOf_parsed parsed, noAdding]; rfl)
    refine ⟨(count, world), ?_, by rw [same]; exact held⟩
    simp only [carryOutOn, run, parsed, runCommand_unsteered trusted (unsteered_xadd isXadd _),
      dispatch_refused isError (runs server client)]
    rfl
  · have stores := @run_stores server client command supply _ trusted _ parsed
      (unsteered_xadd isXadd _) adding.key (.xadd adding.requested adding.fields) reply
      (runs server client) count world
    obtain ⟨after, answered, performed, outcome⟩ :=
      State.performOn_adding held adding (supply count).clock
    rw [performed] at stores
    obtain ⟨last, answer, ends, isAfter⟩ := stores
    refine ⟨last, by simp only [carryOutOn, ends], ?_⟩
    rw [Logs.HeldBy, isAfter]
    have isTake : logs.take (supply count).clock.unix words =
        adding.append (supply count).clock.unix logs := by
      rw [Logs.take, addingOf_parsed parsed, isAdding]
      rfl
    cases appended : adding.append (supply count).clock.unix logs with
    | none =>
      rw [appended] at outcome isTake
      rw [Logs.carry_of_none isTake]
      exact outcome.2
    | some result =>
      rw [appended] at outcome isTake
      rw [Logs.carry_of_some isTake]
      exact outcome.2

end

/-! ## What clients are told -/

/-- The id an answer names. -/
def Answer.idSaid : Answer → Option EntryId
  | .reply (.bulkString said) =>
    match (text said).bind RequestedId.fromStr with
    | some (.explicit id) => some id
    | _ => none
  | _ => none

/-- The entry a command that came in appends. -/
def Asked.adding (asked : Asked) : Option Adding :=
  match Command.parse asked.found with
  | .ok command => command.adding
  | .error _ => none

/-- The entries clients were told a key has been given, under the ids they were told. -/
def entriesTold (key : Bytes) (answers : List (Asked × Answer)) : List StreamEntry :=
  answers.filterMap fun (asked, answer) =>
    match asked.adding, answer.idSaid with
    | some adding, some id => if adding.key = key then some ⟨id, adding.fields⟩ else none
    | _, _ => none

omit [Platform] in
theorem idSaid_toText (id : EntryId) : (Answer.reply (bulk id.toText)).idSaid = some id := by
  simp [Answer.idSaid, bulk, EntryId.fromStr_toText]

omit [Platform] in
theorem idSaid_error {value : Value} (isError : value.isError) :
    (Answer.reply value).idSaid = none := by
  cases value <;> first | rfl | cases isError

/-- The streams, the log, what the first replica has been sent and what the clients were told
are all of the same entries. -/
structure Course.Kept (follower : Nat) (logs : Logs) (records : List (List Bytes))
    (course : Course) : Prop where
  held : logs.HeldBy course.world.store
  log : course.world.log = encodeAll (records.map asCommand)
  sends : course.world.Sends follower (records.map fun words => (asCommand words).encode)
  told : ∀ key, logs key = entriesTold key course.answers

section

variable {server : Server} {follower : Nat} {logs : Logs} {records : List (List Bytes)}
  {course : Course} {asked : Asked} {command : Command}

theorem Course.Kept.refused (kept : course.Kept follower logs records) {after : State}
    (held : logs.HeldBy after) {answer : Answer} (nothing : answer.idSaid = none) (asked : Asked) :
    Course.Kept follower logs records
      ⟨{ course.world with store := after }, course.answers ++ [(asked, answer)]⟩ where
  held := held
  log := kept.log
  sends := kept.sends
  told key := by
    rw [kept.told key, entriesTold, entriesTold, List.filterMap_append]
    cases asked.adding <;> simp [nothing]

/-- One more `XADD` is taken, and then recorded, passed on and told of, or it is refused. -/
theorem Course.Kept.step (recording : server.recording) (master : server.config.replicaof = none)
    (kept : course.Kept follower logs records) (trusted : asked.client.Trusted)
    (parsed : Command.parse asked.found = .ok command) (isXadd : command.uppercased = "XADD") :
    ∃ next, course.step server asked = some next ∧
      next.Kept follower (logs.carry asked.clock.unix (command.name :: command.args))
        (if (logs.take asked.clock.unix (command.name :: command.args)).isSome then
          records ++ [command.name :: command.args] else records) := by
  have isAddingOf : addingOf (command.name :: command.args) = command.adding := by
    refine addingOf_parsed ?_
    rw [← Command.asSent, ← eq_asSent_of_parse parsed]
    exact parsed
  have isAsked : asked.adding = command.adding := by rw [Asked.adding, parsed]
  rcases xadd_program isXadd with ⟨noAdding, value, isError, runs⟩ |
    ⟨adding, reply, isAdding, accepts, refuses, runs⟩
  · have refused : logs.take asked.clock.unix (command.name :: command.args) = none := by
      rw [Logs.take, isAddingOf, noAdding]
      rfl
    rw [Logs.carry_of_none refused, refused, Course.step_refused trusted parsed
      (unsteered_xadd isXadd _) (by rw [isXadd]; decide) isError (runs server asked.client)]
    exact ⟨_, rfl, kept.refused kept.held (idSaid_error isError) asked⟩
  · have isTake : logs.take asked.clock.unix (command.name :: command.args) =
        adding.append asked.clock.unix logs := by
      rw [Logs.take, isAddingOf, isAdding]
      rfl
    obtain ⟨after, answered, performed, outcome⟩ :=
      State.performOn_adding kept.held adding asked.clock
    have stepped := @Course.step_asks server command _ course asked trusted parsed
      (unsteered_xadd isXadd _) (by rw [isXadd]; decide) adding.key
      (.xadd adding.requested adding.fields) reply (runs server asked.client)
    rw [performed] at stepped
    obtain ⟨world, isNext, unnoted, noted⟩ := stepped
    refine ⟨_, isNext, ?_⟩
    cases appended : adding.append asked.clock.unix logs with
    | none =>
      rw [appended] at outcome isTake
      obtain ⟨⟨error, rfl⟩, held⟩ := outcome
      rw [Logs.carry_of_none isTake, isTake, unnoted (.inl (refuses error))]
      exact kept.refused held (idSaid_error (refuses error)) asked
    | some result =>
      obtain ⟨id, next⟩ := result
      rw [appended] at outcome isTake
      obtain ⟨rfl, held⟩ := outcome
      rw [Logs.carry_of_some isTake, isTake]
      have isNoted := noted command.asSent (by rw [accepts]; simp [bulk, Value.isError])
        (by simp [writtenDown, isXadd, recordedAsSent])
      refine ⟨?_, ?_, ?_, fun key => ?_⟩
      · rw [Logs.HeldBy, isNoted.store]
        exact held
      · rw [isNoted.log, if_pos recording]
        simp [kept.log, Command.asSent, encodeAll_eq_flatMap]
      · have sends : World.Sends follower (records.map fun words => (asCommand words).encode)
            { course.world with store := after } := kept.sends
        simpa [Command.asSent] using sends.noted isNoted master
      · rw [entriesTold, List.filterMap_append, ← entriesTold, ← kept.told key,
          (Adding.append_eq_some appended).2]
        simp only [List.filterMap_cons, List.filterMap_nil, isAsked, isAdding, accepts,
          idSaid_toText]
        by_cases same : adding.key = key
        · subst same
          simp
        · simp [same, Function.update_of_ne (Ne.symm same)]

end

/-! ## Whole runs -/

/-- The streams a store holds. -/
def State.logs (state : State) : Logs := fun key =>
  match Cell.stream (state.contents key) with
  | .ok stream => stream
  | .error _ => []

/-- A command that came in names its id, or is refused, or is given an id in the last
millisecond there is. -/
def Course.Sure (course : Course) (asked : Asked) : Prop :=
  ∀ adding, asked.adding = some adding → adding.Sure asked.clock.unix course.world.store.logs

omit [Platform] in
theorem Logs.stream_cells (logs : Logs) (key : Bytes) :
    Cell.stream (logs.cells key) = .ok (logs key) := by
  unfold Logs.cells
  split
  · rename_i absent
    rw [absent]
    rfl
  · rfl

omit [Platform] in
theorem Logs.HeldBy.logs_eq {logs : Logs} (held : logs.HeldBy state) :
    state.logs = logs := by
  funext key
  rw [State.logs, held, logs.stream_cells]

/-- When each command came in, and its words. -/
def timesAndWords (asked : List Asked) : List (UInt64 × List Bytes) :=
  asked.map fun one => (one.clock.unix, (intoParts one.found).getD [])

section

variable {server : Server} {follower : Nat}

theorem words_of_parse {found : Value} {command : Command}
    (parsed : Command.parse found = .ok command) :
    (intoParts found).getD [] = command.name :: command.args := by
  rw [eq_asSent_of_parse parsed, Command.asSent, intoParts_asCommand]
  rfl

/-- A whole run of `XADD`s. -/
theorem Course.Kept.run (recording : server.recording) (master : server.config.replicaof = none)
    {asked : List Asked} (trusted : ∀ one ∈ asked, one.client.Trusted)
    (isXadd : ∀ one ∈ asked, ∃ command, Command.parse one.found = .ok command ∧
      command.uppercased = "XADD")
    {course : Course} {logs : Logs} {records : List (List Bytes)}
    (kept : course.Kept follower logs records) :
    ∃ last, Run.after (Course.step server) course asked = some last ∧
      last.Kept follower (Logs.carryAll (timesAndWords asked) logs)
        (records ++ Logs.taken (timesAndWords asked) logs) ∧
      (Run.Meets (Course.step server) Course.Sure course asked ↔
        Logs.AllSure (timesAndWords asked) logs) := by
  induction asked generalizing course logs records with
  | nil =>
    exact ⟨course, rfl, by simpa [timesAndWords, Logs.taken, Logs.carryAll] using kept, Iff.rfl⟩
  | cons one asked ih =>
    obtain ⟨command, parsed, named⟩ := isXadd one (by simp)
    obtain ⟨next, stepped, keptNext⟩ := kept.step recording master (trusted one (by simp)) parsed
      named
    have isWords := words_of_parse parsed
    obtain ⟨last, ran, keptLast, sureRest⟩ := ih
      (fun other member => trusted other (by simp [member]))
      (fun other member => isXadd other (by simp [member])) keptNext
    have opening : timesAndWords (one :: asked) =
        (one.clock.unix, command.name :: command.args) :: timesAndWords asked := by
      simp [timesAndWords, isWords]
    refine ⟨last, by rw [Run.after, stepped]; exact ran, ?_, ?_⟩
    · rw [opening, Logs.carryAll_cons, Logs.taken]
      split
      · rename_i isTaken
        simpa [isTaken] using keptLast
      · rename_i refused
        simpa [refused] using keptLast
    · rw [opening, Run.Meets, Logs.AllSure, ← sureRest]
      have isAdding : one.adding = addingOf (command.name :: command.args) := by
        rw [Asked.adding, parsed, addingOf, ← Command.asSent, ← eq_asSent_of_parse parsed, parsed]
      simp only [Course.Sure, isAdding, kept.held.logs_eq, stepped, Option.some.injEq,
        forall_eq']

/-- The streams of a store are those the clients were told of. -/
def State.AsTold (store : State) (answers : List (Asked × Answer)) : Prop :=
  ∀ now key, Cell.stream ((store.live now key).map Entry.cell) = .ok (entriesTold key answers)

theorem Logs.HeldBy.asTold_iff {logs : Logs} (held : logs.HeldBy state)
    (answers : List (Asked × Answer)) :
    state.AsTold answers ↔ ∀ key, logs key = entriesTold key answers := by
  have same (now : Instant) (key : Bytes) :
      Cell.stream ((state.live now key).map Entry.cell) = .ok (logs key) := by
    rw [(Logs.undated held).contents_eq, held, logs.stream_cells]
  simp only [State.AsTold, same, Except.ok.injEq]
  exact ⟨fun told => told 0, fun told _ => told⟩

theorem mem_taken {logs : Logs} (member : words ∈ Logs.taken asked logs) :
    ∃ unix, (unix, words) ∈ asked := by
  induction asked generalizing logs with
  | nil => cases member
  | cons one asked ih =>
    obtain ⟨unix, first⟩ := one
    rw [Logs.taken] at member
    split at member
    · rcases List.mem_cons.mp member with rfl | later
      · exact ⟨unix, by simp⟩
      · exact (ih later).imp fun _ found => by simp [found]
    · exact (ih member).imp fun _ found => by simp [found]

/-- A clock that is never behind what it read for these commands, and never goes back. -/
structure Later (asked : List Asked) (later : Nat → Env) : Prop where
  now : Monotone fun n => (later n).clock.now
  unix : ∀ first second, first ≤ second → (later first).clock.unix ≤ (later second).clock.unix
  past : ∀ one ∈ asked, ∀ n, one.clock.now ≤ (later n).clock.now ∧
    one.clock.unix ≤ (later n).clock.unix

/-- What is done again at times read off a later clock comes to the same exactly when every id
was sure. -/
theorem again_iff {asked : List Asked} {logs : Logs} {same : (Nat → Env) → Prop}
    (again : ∀ later, ∃ clocks : List Clock,
      clocks.length = (Logs.taken (timesAndWords asked) logs).length ∧
      (∀ clock ∈ clocks, ∃ n, clock = (later n).clock) ∧
      (same later ↔ Logs.carryAll ((clocks.map Clock.unix).zip
        (Logs.taken (timesAndWords asked) logs)) logs = Logs.carryAll (timesAndWords asked) logs)) :
    (∀ later, Later asked later → same later) ↔ Logs.AllSure (timesAndWords asked) logs := by
  constructor
  · intro always
    let late : Env := { clock := ⟨(asked.map fun one => one.clock.now).sum, lastMillisecond⟩ }
    have isLater : Later asked fun _ => late :=
      ⟨monotone_const, fun _ _ _ => UInt64.le_refl _, fun one member _ =>
        ⟨List.single_le_sum (by simp) _ (List.mem_map_of_mem member), le_lastMillisecond _⟩⟩
    obtain ⟨clocks, sameLength, read, isSame⟩ := again fun _ => late
    have allLast : clocks.map Clock.unix =
        List.replicate (Logs.taken (timesAndWords asked) logs).length lastMillisecond := by
      refine List.eq_replicate_iff.mpr ⟨by simpa using sameLength, fun unix member => ?_⟩
      obtain ⟨clock, isClock, rfl⟩ := List.mem_map.mp member
      obtain ⟨-, rfl⟩ := read clock isClock
      rfl
    have zipped (words : List (List Bytes)) :
        (List.replicate words.length lastMillisecond).zip words =
          words.map fun words => (lastMillisecond, words) := by
      induction words with
      | nil => rfl
      | cons first words ih => simp [List.replicate_succ, ih]
    have atLast := isSame.mp (always _ isLater)
    rw [allLast, zipped] at atLast
    exact (Logs.sure_of_carryAll (fun _ => Nat.le_refl _) atLast).2
  · intro sure later isLater
    obtain ⟨clocks, sameLength, read, isSame⟩ := again later
    refine isSame.mpr (Logs.carryAll_later sure (by simpa using sameLength) ?_)
    intro unix isUnix one member
    obtain ⟨clock, isClock, rfl⟩ := List.mem_map.mp isUnix
    obtain ⟨n, rfl⟩ := read clock isClock
    obtain ⟨asking, isAsking, rfl⟩ := List.mem_map.mp member
    exact (isLater.past asking isAsking n).2

/-- What is taken of a run are the words of its commands. -/
theorem exists_of_mem_taken {asked : List Asked}
    (isXadd : ∀ one ∈ asked, ∃ command, Command.parse one.found = .ok command ∧
      command.uppercased = "XADD") {logs : Logs}
    (member : words ∈ Logs.taken (timesAndWords asked) logs) :
    ∃ one ∈ asked, one.found = asCommand words ∧ ∃ command,
      Command.parse (asCommand words) = .ok command ∧ command.uppercased = "XADD" := by
  obtain ⟨unix, found⟩ := mem_taken member
  obtain ⟨one, isOne, isWords⟩ := List.mem_map.mp found
  obtain ⟨command, parsed, named⟩ := isXadd one isOne
  obtain ⟨-, rfl⟩ := Prod.mk.inj isWords
  have isSent : one.found = asCommand ((intoParts one.found).getD []) := by
    rw [words_of_parse parsed]
    exact eq_asSent_of_parse parsed
  exact ⟨one, isOne, isSent, command, isSent ▸ parsed, named⟩

/-- The commands of a run are carried out again on an empty store, each at what a clock then
reads. -/
theorem carryOutOn_taken (copy : Server) {asked : List Asked}
    (isXadd : ∀ one ∈ asked, ∃ command, Command.parse one.found = .ok command ∧
      command.uppercased = "XADD") (later : Nat → Env) {world : World}
    (empty : Logs.HeldBy (fun _ => []) world.store) :
    ∃ clocks : List Clock,
      clocks.length = (Logs.taken (timesAndWords asked) fun _ => []).length ∧
      (∀ clock ∈ clocks, ∃ n, clock = (later n).clock) ∧
      ∃ last, ((Logs.taken (timesAndWords asked) fun _ => []).map asCommand).foldlM
          (carryOutOn copy later) ((0, world), {}) = some (last, {}) ∧
        Logs.HeldBy (Logs.carryAll ((clocks.map Clock.unix).zip
          (Logs.taken (timesAndWords asked) fun _ => [])) fun _ => []) last.2.store := by
  have does : ∀ words ∈ Logs.taken (timesAndWords asked) fun _ => [],
      Does Logs.HeldBy (fun clock words logs => some (logs.carry clock.unix words)) copy {}
        words := by
    intro words member
    obtain ⟨one, isOne, isSent, command, parsed, named⟩ := exists_of_mem_taken isXadd member
    exact does_xadd ⟨rfl, rfl, rfl⟩ parsed named
  obtain ⟨clocks, sameLength, read, ends⟩ := carryOutOn_does does later 0 empty
  refine ⟨clocks, sameLength, read, ?_⟩
  have folded : (clocks.zip (Logs.taken (timesAndWords asked) fun _ => [])).foldlM
      (fun logs one => some (Logs.carry one.1.unix one.2 logs)) (fun _ => []) =
        some (Logs.carryAll ((clocks.map Clock.unix).zip
          (Logs.taken (timesAndWords asked) fun _ => [])) fun _ => []) := by
    rw [Logs.carryAll, List.zip_map_left, List.foldl_map]
    exact List.foldlM_pure
  rw [folded] at ends
  exact ends

/-- The log of a run, read back and done again, comes to the streams the clients were told
of. -/
def Course.ComesUpAsTold (server : Server) (course : Course) (later : Nat → Env) : Prop :=
  ∃ commands last replayed, Aof.recorded course.world.log = .ok commands ∧
    (replay { server with recording := false } {} 0 commands).exec machine later 0
      { log := course.world.log } = .done last replayed ∧ last.2.store.AsTold course.answers

/-- A replica comes to the streams the clients were told of. -/
def Course.ReplicatedAsTold (copy : Server) (course : Course) (changes : List Bytes)
    (later : Nat → Env) : Prop :=
  ∃ taken last, keepUpAll (carryOutOn copy later) 0 ((0, {}), {}) [] changes =
    ⟨taken, some last, none⟩ ∧ last.1.2.store.AsTold course.answers

/-- After any run of `XADD`s the streams are those the clients were told of.  What the log comes
to when it is done again at later times, and what a replica comes to that followed from the
start, are the same streams at all such times exactly when every id left to the server and
not refused fell into the last millisecond there is. -/
theorem ids_kept_iff (server copy : Server) (recording : server.recording)
    (master : server.config.replicaof = none) (follower : Nat) (asked : List Asked)
    (trusted : ∀ one ∈ asked, one.client.Trusted) (received : ∀ one ∈ asked, Received one.found)
    (isXadd : ∀ one ∈ asked, ∃ command, Command.parse one.found = .ok command ∧
      command.uppercased = "XADD") :
    ∃ course replica others, Run.after (Course.step server)
        { world := { replicas := [{ connection := follower }] } } asked = some course ∧
      course.world.replicas = replica :: others ∧ replica.connection = follower ∧
      course.world.store.AsTold course.answers ∧
      ((∀ later, Later asked later → course.ComesUpAsTold server later) ↔
        Run.Meets (Course.step server) Course.Sure
          { world := { replicas := [{ connection := follower }] } } asked) ∧
      ((∀ later, Later asked later → course.ReplicatedAsTold copy replica.changes later) ↔
        Run.Meets (Course.step server) Course.Sure
          { world := { replicas := [{ connection := follower }] } } asked) := by
  have empty : Logs.HeldBy (fun _ => []) {} := by
    funext key
    rfl
  have start : Course.Kept follower (fun _ => []) []
      { world := { replicas := [{ connection := follower }] } } :=
    ⟨empty, rfl, ⟨_, _, rfl, rfl, rfl, rfl⟩, fun key => rfl⟩
  obtain ⟨course, ran, kept, sureIff⟩ := start.run recording master trusted isXadd
  rw [List.nil_append] at kept
  obtain ⟨replica, others, isFirst, isFollower, -, changes⟩ := kept.sends
  have sendable : ∀ words ∈ Logs.taken (timesAndWords asked) fun _ => [], Sendable words := by
    intro words member
    obtain ⟨one, isOne, isSent, command, parsed, -⟩ := exists_of_mem_taken isXadd member
    have isReceived := received one isOne
    rw [isSent] at isReceived
    refine isReceived.sendable ?_
    rintro rfl
    cases parsed
  have asTold {logs : Logs} {store : State} (held : logs.HeldBy store) :
      store.AsTold course.answers ↔ logs = Logs.carryAll (timesAndWords asked) fun _ => [] := by
    rw [held.asTold_iff, funext_iff]
    simp only [kept.told]
  refine ⟨course, replica, others, ran, isFirst, isFollower, (asTold kept.held).mpr rfl, ?_, ?_⟩
  · rw [sureIff]
    refine again_iff fun later => ?_
    obtain ⟨clocks, sameLength, read, last, ends, held⟩ :=
      carryOutOn_taken { server with recording := false } isXadd later
        (show Logs.HeldBy (fun _ => []) (World.store { log := course.world.log }) from empty)
    refine ⟨clocks, sameLength, read, ?_⟩
    rw [← asTold held]
    have readBack := Aof.recorded_encodeAll sendable
    rw [← kept.log] at readBack
    have replays := @replay_exec _ { server with recording := false } later
      ((Logs.taken (timesAndWords asked) fun _ => []).map asCommand) 0 0
      { log := course.world.log } {}
    rw [ends] at replays
    obtain ⟨done, isDone⟩ := replays
    constructor
    · rintro ⟨commands, other, replayed, isRead, ran, told⟩
      obtain rfl := Except.ok.inj (readBack.symm.trans isRead)
      rw [isDone] at ran
      cases ran
      exact told
    · exact fun told => ⟨_, _, _, readBack, isDone, told⟩
  · rw [sureIff]
    refine again_iff fun later => ?_
    obtain ⟨clocks, sameLength, read, last, ends, held⟩ :=
      carryOutOn_taken copy isXadd later
        (show Logs.HeldBy (fun _ => []) (World.store {}) from empty)
    refine ⟨clocks, sameLength, read, ?_⟩
    rw [← asTold held]
    have carried : ((Logs.taken (timesAndWords asked) fun _ => []).map asCommand).foldlM
        (takeIn (carryOutOn copy later)) ((0, {}), {}) = some (last, {}) := by
      rw [foldlM_takeIn (List.forall_mem_map.mpr fun words member => ?_), ends]
      obtain ⟨-, -, -, command, parsed, named⟩ := exists_of_mem_taken isXadd member
      exact not_asksHowFar parsed (by rw [named]; rfl)
    have keeps := @keepUpAll_commands _ (carryOutOn copy later) 0 _ _ [] replica.changes
      ((Logs.taken (timesAndWords asked) fun _ => []).map asCommand)
      (List.forall_mem_map.mpr fun words member => (sendable words member).readable)
      (by rw [changes, encodeAll_eq_flatMap, List.flatMap_map, List.flatMap_def]; rfl) carried
    constructor
    · rintro ⟨taken, other, kept, told⟩
      rw [keeps] at kept
      cases kept
      exact told
    · exact fun told => ⟨_, _, keeps, told⟩

end

/-- Two entries, the second of which leaves its sequence number to the server. -/
def namedRun : List Asked :=
  [⟨{}, ⟨0, 7⟩, typed ["XADD", "s", "1-1", "f", "v"]⟩,
    ⟨{}, ⟨0, 9⟩, typed ["XADD", "s", "5-*", "f", "w"]⟩]

omit [Platform] in
theorem ids_kept_named : ∃ course replica others, Run.after (@Course.step .ascii {})
      { world := { replicas := [{ connection := 1 }] } } namedRun = some course ∧
    course.world.replicas = replica :: others ∧
    @State.AsTold .ascii course.world.store course.answers ∧
    (∀ later, Later namedRun later → @Course.ComesUpAsTold .ascii {} course later) ∧
    ∀ later, Later namedRun later →
      @Course.ReplicatedAsTold .ascii {} course replica.changes later := by
  have trusted : ∀ one ∈ namedRun, one.client.Trusted := by
    simp only [namedRun, List.forall_mem_cons]
    exact ⟨⟨rfl, rfl, rfl⟩, ⟨rfl, rfl, rfl⟩, by simp⟩
  have received : ∀ one ∈ namedRun, Received one.found := by
    simp only [namedRun, List.forall_mem_cons]
    exact ⟨typed_received (by simp) (by decide) (by decide +kernel),
      typed_received (by simp) (by decide) (by decide +kernel), by simp⟩
  have isXadd : ∀ one ∈ namedRun, ∃ command, @Command.parse .ascii one.found = .ok command ∧
      command.uppercased = "XADD" := by
    simp only [namedRun, List.forall_mem_cons]
    exact ⟨⟨_, rfl, by decide +kernel⟩, ⟨_, rfl, by decide +kernel⟩, by simp⟩
  obtain ⟨course, replica, others, ran, isFirst, -, told, log, replicated⟩ :=
    @ids_kept_iff .ascii {} {} rfl rfl 1 namedRun trusted received isXadd
  have sure : Run.Meets (@Course.step .ascii {}) (@Course.Sure .ascii)
      { world := { replicas := [{ connection := 1 }] } } namedRun := by
    refine ⟨fun adding isAdding isAuto => ?_, fun next _ =>
      ⟨fun adding isAdding isAuto => ?_, fun _ _ => True.intro⟩⟩
    all_goals
      cases isAdding
      cases isAuto
  exact ⟨course, replica, others, ran, isFirst, told, log.mpr sure, replicated.mpr sure⟩

omit [Platform] in
/-- An entry the client was told has the id `1000-0` comes back up under `2000-0`. -/
theorem ids_given_anew : ∃ course commands last replayed,
    Run.after (@Course.step .ascii {}) { world := {} }
        [⟨{}, ⟨0, 1000⟩, typed ["XADD", "s", "*", "f", "v"]⟩] = some course ∧
      Aof.recorded course.world.log = .ok commands ∧
      (@replay .ascii { recording := false } {} 0 commands).exec machine
        (fun _ => { clock := ⟨0, 2000⟩ }) 0 { log := course.world.log } = .done last replayed ∧
      course.answers.map (fun answered => answered.2.idSaid) = [some ⟨1000, 0⟩] ∧
      Cell.stream ((course.world.store.live 0 (utf8 "s")).map Entry.cell) =
        .ok [⟨⟨1000, 0⟩, [(utf8 "f", utf8 "v")]⟩] ∧
      Cell.stream ((last.2.store.live 0 (utf8 "s")).map Entry.cell) =
        .ok [⟨⟨2000, 0⟩, [(utf8 "f", utf8 "v")]⟩] :=
  ⟨_, _, _, _, rfl, rfl, rfl, by decide +kernel, by decide +kernel, by decide +kernel⟩

end RedisServer
