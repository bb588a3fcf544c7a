import RedisServer.Commands.Tail
import RedisServer.Concurrency.Storing

/-!
# A client that follows a stream

A client reads a stream again and again, each time from the last id it was returned.  What
it has been returned is, whatever the others append in the meantime, what the stream held
past the id the client began at when the client last read it.
-/

namespace RedisServer

variable {key first word : Bytes} {id : Nat} {phase : Reading} {moment : Moment} {world : World}

/-- Whether a turn writes to a key, if it does, by an `XADD`. -/
def Happening.onlyAdds (key : Bytes) : Happening → Bool
  | .called _ (.store call) reply => !call.wrote key reply || call.isXadd
  | _ => true

/-- A client that follows a stream. -/
structure Reader where
  /-- What the command under way gives for the stream. -/
  words : List Bytes := []
  /-- The stream when the command under way settled its ids. -/
  settledAt : List StreamEntry := []
  /-- The stream when the command under way last read it. -/
  readAt : Option (List StreamEntry) := none
  /-- The entries returned so far. -/
  returned : List Value := []
  /-- The id the first of them was read from. -/
  start : EntryId := .zero
  /-- The stream at the last read that has been answered. -/
  seen : List StreamEntry := []
  /-- Whether every read has given the last id returned before it. -/
  faithful : Bool := true

namespace Reader

/-- The id a word stands for, `$` being the one the stream ends at. -/
def idOf (word : Bytes) (stream : List StreamEntry) : EntryId :=
  (Streams.pendingId word).join.getD (topOf stream)

/-- The last id returned, as it was spelled, or what the client begins with. -/
def cursor (first : Bytes) (reader : Reader) : Bytes :=
  match reader.returned.getLast? with
  | some (.array (.bulkString id :: _)) => id
  | _ => first

section

variable [Platform]

/-- What a command gives for a stream to be read from. -/
def wordsIn (key : Bytes) (asked : Value) : List Bytes :=
  match Command.parse asked with
  | .ok command => command.wordsFor key
  | .error _ => []

/-- The client's next turn. -/
def follow (key first : Bytes) (reader : Reader) (moment : Moment) : Reader :=
  match moment.what with
  | .asked asked =>
    { reader with
      words := wordsIn key asked
      settledAt := []
      readAt := none
      faithful := reader.faithful &&
        (wordsIn key asked == [] || wordsIn key asked == [reader.cursor first]) }
  | .called _ (.store (.resolveReads _)) (.ok _) =>
    { reader with settledAt := moment.world.store.streamOf key }
  | .called _ (.store (.xread _)) (.ok _) =>
    { reader with readAt := some (moment.world.store.streamOf key) }
  | .called _ (.store (.xreadOrWatch _)) (.ok _) =>
    { reader with readAt := some (moment.world.store.streamOf key) }
  | .answered (.reply reply) =>
    if reader.words = [] then reader
    else
      { reader with
        returned := reader.returned ++ Streams.returnedAt key reply
        start :=
          if reader.returned.isEmpty && reader.readAt.isSome then idOf first reader.settledAt
          else reader.start
        seen := reader.readAt.getD reader.seen }
  | _ => reader

/-- A client after all that has happened. -/
def after (id : Nat) (key first : Bytes) (history : List Moment) : Reader :=
  history.foldl
    (fun reader moment => if moment.id = id then reader.follow key first moment else reader) {}

theorem after_concat (id : Nat) (key first : Bytes) (history : List Moment) (moment : Moment) :
    after id key first (history ++ [moment]) =
      if moment.id = id then (after id key first history).follow key first moment
      else after id key first history := by
  simp [after]

/-- Once a client has strayed it stays astray. -/
theorem faithful_of_follow {reader : Reader}
    (faithful : (reader.follow key first moment).faithful = true) : reader.faithful = true := by
  unfold follow at faithful
  split at faithful
  · exact (Bool.and_eq_true_iff.mp faithful).1
  · exact faithful
  · exact faithful
  · exact faithful
  · split at faithful <;> exact faithful
  · exact faithful

end

/-! ## What a client has been returned -/

/-- A client has been returned what a stream, which has grown since, held past the id the
client began at. -/
structure UpTo (reader : Reader) (stream : List StreamEntry) : Prop where
  returned : reader.returned = (past reader.start reader.seen).map Streams.encodeEntry
  seen : reader.seen <+: stream
  readAt : ∀ read, reader.readAt = some read → reader.seen <+: read ∧ read <+: stream

variable {reader : Reader} {stream : List StreamEntry}

theorem UpTo.grows (upTo : reader.UpTo stream) {later : List StreamEntry}
    (grew : stream <+: later) : reader.UpTo later where
  returned := upTo.returned
  seen := upTo.seen.trans grew
  readAt read isRead := ⟨(upTo.readAt read isRead).1, (upTo.readAt read isRead).2.trans grew⟩

theorem cursor_of_nil (nothing : reader.returned = []) :
    reader.cursor first = first := by
  rw [cursor, nothing]
  rfl

/-- A client goes on from the last entry it was returned. -/
theorem UpTo.cursor_eq (upTo : reader.UpTo stream) (first : Bytes) {last : StreamEntry}
    (isLast : (past reader.start reader.seen).getLast? = some last) :
    reader.cursor first = utf8 last.id.toText := by
  rw [cursor, upTo.returned, List.getLast?_map, isLast]
  rfl

theorem idOf_toText (id : EntryId) (stream : List StreamEntry) :
    idOf (utf8 id.toText) stream = id := by
  rw [idOf, Streams.pendingId_toText]
  rfl

end Reader

/-- How far a read has come, as far as the client that reads is concerned. -/
def Reading.Agrees (key word : Bytes) (reader : Reader) : Reading → Prop
  | .begun => reader.readAt = none
  | .settled reads => reader.readAt = none ∧
      (reads.filter fun read => read.1 = key) = [(key, Reader.idOf word reader.settledAt)]
  | .read reads streams =>
    (reads.filter fun read => read.1 = key) = [(key, Reader.idOf word reader.settledAt)] ∧
    ∃ stream, reader.readAt = some stream ∧
      foundAt key streams = past (Reader.idOf word reader.settledAt) stream

theorem Reading.Agrees.streams_eq_nil {reader : Reader} (agrees : phase.Agrees key word reader)
    (unread : reader.readAt = none) :
    phase.streams = [] := by
  cases phase with
  | read reads streams =>
    obtain ⟨-, stream, isRead, -⟩ := agrees
    cases unread.symm.trans isRead
  | _ => rfl

theorem Reading.Agrees.foundAt_eq {reader : Reader} (agrees : phase.Agrees key word reader)
    {stream : List StreamEntry} (isRead : reader.readAt = some stream) :
    foundAt key phase.streams = past (Reader.idOf word reader.settledAt) stream := by
  cases phase with
  | begun => cases agrees.symm.trans isRead
  | settled reads => cases agrees.1.symm.trans isRead
  | read reads streams =>
    obtain ⟨-, other, isOther, found⟩ := agrees
    cases isRead.symm.trans isOther
    exact found

section

variable [Platform]

/-- Being answered brings a client up to the stream it has read. -/
theorem Reader.UpTo.answered {reader : Reader} {stream : List StreamEntry} {reply : Value}
    (upTo : reader.UpTo stream) (ordered : Tail.Ordered StreamEntry.id stream)
    (agrees : phase.Agrees key (reader.cursor first) reader) (answers : phase.Answers key reply)
    (isAnswer : moment.what = .answered (.reply reply)) (asks : reader.words ≠ []) :
    (reader.follow key first moment).UpTo stream := by
  unfold Reader.follow
  simp only [isAnswer, if_neg asks]
  rw [Reading.Answers] at answers
  cases isRead : reader.readAt with
  | none =>
    rw [agrees.streams_eq_nil isRead] at answers
    refine ⟨?_, upTo.seen, by simp⟩
    simp only [answers]
    simpa [foundAt] using upTo.returned
  | some read =>
    obtain ⟨grew, within⟩ := upTo.readAt read isRead
    rw [agrees.foundAt_eq isRead] at answers
    refine ⟨?_, within, fun other isOther => ?_⟩
    · simp only [answers, Option.isSome_some, Bool.and_true, Option.getD_some]
      cases isLast : (past reader.start reader.seen).getLast? with
      | none =>
        have nothing : reader.returned = [] := by
          rw [upTo.returned, List.getLast?_eq_none_iff.mp isLast]
          rfl
        rw [Reader.cursor_of_nil nothing, nothing]
        rfl
      | some last =>
        have something : reader.returned.isEmpty = false := by
          rw [upTo.returned, List.isEmpty_map]
          cases some : past reader.start reader.seen with
          | nil => simp [some] at isLast
          | cons entry entries => rfl
        rw [something, upTo.cursor_eq first isLast, Reader.idOf_toText, upTo.returned]
        simp only [Bool.false_eq_true, if_false]
        rw [← List.map_append, ← Tail.past_resume (ordered.sublist within.sublist) grew isLast]
    · cases isOther
      exact ⟨List.prefix_refl _, within⟩

/-! ## A client's turn -/

/-- A client in the middle of a read is as far as its phase says. -/
def Stage.Reads (key first : Bytes) (reader : Reader) : Stage → Prop
  | .running _ program => reader.words = [] ∨
      (reader.words = [reader.cursor first] ∧ ∃ phase : Reading,
        program.Keeps (reading key (reader.cursor first)) (Reading.Ends key) phase ∧
          phase.Agrees key (reader.cursor first) reader)
  | _ => True

/-- A call changes neither what a client asks for nor what it has been returned. -/
theorem Reader.follow_called {reader : Reader} {key first : Bytes} {moment : Moment} {env : Env}
    {call : Call} {reply : call.Reply} (isCall : moment.what = .called env call reply) :
    (reader.follow key first moment).words = reader.words ∧
      (reader.follow key first moment).returned = reader.returned ∧
      (reader.follow key first moment).start = reader.start ∧
      (reader.follow key first moment).seen = reader.seen := by
  unfold Reader.follow
  split
  · cases isCall.symm.trans ‹_›
  · exact ⟨rfl, rfl, rfl, rfl⟩
  · exact ⟨rfl, rfl, rfl, rfl⟩
  · exact ⟨rfl, rfl, rfl, rfl⟩
  · cases isCall.symm.trans ‹_›
  · exact ⟨rfl, rfl, rfl, rfl⟩

omit [Platform] in
/-- The ids a read has settled on. -/
theorem filter_settled {store after : State} {now : Instant} (proper : store.Proper)
    {pending : List (Bytes × Option EntryId)} {reads : List (Bytes × EntryId)}
    (resolved : store.resolveReads now pending = (after, .ok reads)) {id : Option EntryId}
    (isId : Streams.pendingId word = some id)
    (once : (pending.filter fun read => read.1 = key) = [(key, id)]) :
    (reads.filter fun read => read.1 = key) =
      [(key, Reader.idOf word (store.streamOf key))] := by
  rw [State.resolveReads_settled proper resolved, List.filter_map]
  have same : ((fun read : Bytes × EntryId => decide (read.1 = key)) ∘
      fun read : Bytes × Option EntryId =>
        (read.1, read.2.getD (topOf (store.streamOf read.1)))) =
      fun read => decide (read.1 = key) := rfl
  rw [same, once, Reader.idOf, isId]
  rfl

/-- A call takes a read as far as the protocol says. -/
theorem Reading.Agrees.called {after : World} {reader : Reader} {env : Env} {call : Call}
    {reply : call.Reply} (agrees : phase.Agrees key word reader) (proper : world.store.Proper)
    (allows : (reading key word).allows phase call)
    (performed : world.perform env call = .done after reply) :
    ((reading key word).next phase call reply).Agrees key word
      (reader.follow key first ⟨id, world, .called env call reply⟩) := by
  by_cases onStore : ∃ asked, call = .store asked
  · obtain ⟨asked, rfl⟩ := onStore
    cases perform_stored performed with
    | aside notAsked => cases notAsked
    | asked held =>
      cases asked with
      | resolveReads pending =>
        cases phase with
        | begun =>
          obtain ⟨id, isId, once⟩ := allows
          cases reply with
          | error error => exact agrees
          | ok reads =>
            exact ⟨agrees, filter_settled proper (Option.some.inj held) isId once⟩
        | _ => exact allows.elim
      | xread others =>
        cases phase with
        | settled reads =>
          obtain rfl := allows
          cases reply with
          | error error => exact agrees
          | ok streams =>
            refine ⟨agrees.2, _, rfl, ?_⟩
            rw [State.xread_foundAt proper (Option.some.inj held), agrees.2]
            exact List.append_nil _
        | _ => exact allows.elim
      | xreadOrWatch others =>
        cases reply with
        | error error => exact agrees
        | ok found =>
          have once : (others.filter fun read => read.1 = key) =
              [(key, Reader.idOf word reader.settledAt)] := by
            cases phase with
            | begun => exact allows.elim
            | settled reads =>
              obtain rfl := allows
              exact agrees.2
            | read reads streams =>
              obtain rfl := allows
              exact agrees.1
          refine ⟨once, _, rfl, ?_⟩
          rw [State.xreadOrWatch_foundAt proper (Option.some.inj held), once]
          exact List.append_nil _
      | _ => cases phase <;> exact allows.elim
  · cases call with
    | store asked => exact absurd ⟨asked, rfl⟩ onStore
    | _ => exact agrees

/-- What a call does to a client that is in the middle of a command. -/
theorem Reader.UpTo.called {reader : Reader} {env : Env} {call : Call} {reply : call.Reply}
    (upTo : reader.UpTo (world.store.streamOf key)) :
    (reader.follow key first ⟨id, world, .called env call reply⟩).UpTo
      (world.store.streamOf key) := by
  have read : ({ reader with readAt := some (world.store.streamOf key) } : Reader).UpTo
      (world.store.streamOf key) :=
    ⟨upTo.returned, upTo.seen, fun _ isRead => by
      cases isRead
      exact ⟨upTo.seen, List.prefix_refl _⟩⟩
  unfold Reader.follow
  split
  · cases ‹Happening.called _ _ _ = _›
  · exact ⟨upTo.returned, upTo.seen, upTo.readAt⟩
  · exact read
  · exact read
  · cases ‹Happening.called _ _ _ = _›
  · exact upTo

/-- What a client's turn makes of it. -/
theorem Stage.Reads.moves {server : Server} {after : World} {stage moved : Stage} {move : Move}
    {what : Happening} {reader : Reader} (reads : stage.Reads key first reader)
    (proper : world.store.Proper) (upTo : reader.UpTo (world.store.streamOf key))
    (moves : Stage.Moves server id world stage move moved after what)
    (faithful : (reader.follow key first ⟨id, world, what⟩).faithful = true) :
    moved.Reads key first (reader.follow key first ⟨id, world, what⟩) ∧
      (reader.follow key first ⟨id, world, what⟩).UpTo (world.store.streamOf key) := by
  cases moves with
  | ask client asked =>
    refine ⟨?_, upTo.returned, upTo.seen, nofun⟩
    have asks := (Bool.and_eq_true_iff.mp faithful).2
    simp only [Bool.or_eq_true, beq_iff_eq] at asks
    refine asks.imp (fun unasked => unasked) fun asks => ⟨asks, .begun, ?_, rfl⟩
    change Reader.wordsIn key asked = [reader.cursor first] at asks
    rw [Reader.wordsIn] at asks
    split at asks
    · exact run_reading server client ‹_› asks
    · cases asks
  | @call asked request resume env _ reply performed =>
    refine ⟨?_, upTo.called⟩
    obtain ⟨words, returned, -, -⟩ :=
      @Reader.follow_called _ reader key first ⟨id, world, .called env request reply⟩ env
        request reply rfl
    rw [Stage.Reads, words, Reader.cursor, returned]
    rcases reads with unasked | ⟨asks, phase, keeps, agrees⟩
    · exact .inl unasked
    · exact .inr ⟨asks, _, keeps.2 reply, agrees.called proper keeps.1 performed⟩
  | answer asked value client =>
    refine ⟨True.intro, ?_⟩
    rcases reads with unasked | ⟨asks, phase, ⟨reply, isReply, answers⟩, agrees⟩
    · simpa [Reader.follow, unasked] using upTo
    · cases isReply
      exact upTo.answered (proper.streamOf_ordered key) agrees answers rfl (by simp [asks])
  | _ => exact ⟨True.intro, upTo⟩

/-! ## Whole runs -/

/-- A stream that nothing but `XADD` writes to only grows. -/
theorem Pool.Proper.streamOf_grows {server : Server} {pool : Pool} {stage moved : Stage}
    {move : Move} {after : World} {what : Happening} (proper : pool.Proper)
    (isStage : pool.stages[id]? = some stage)
    (moves : Stage.Moves server id pool.world stage move moved after what)
    (adds : what.onlyAdds key = true) :
    pool.world.store.streamOf key <+: after.store.streamOf key := by
  have called := proper.called isStage moves
  cases moves.stored with
  | asked performed =>
    refine State.streamOf_grows proper.store (called _ _ _ rfl) performed fun wrote => ?_
    simpa [Happening.onlyAdds, wrote] using adds
  | aside notAsked entries changes => rw [State.streamOf, State.streamOf, entries]

/-- A client that has followed a stream all along. -/
structure Pool.ReadBy (id : Nat) (key first : Bytes) (pool : Pool) : Prop where
  proper : pool.Proper
  upTo : (Reader.after id key first pool.history).UpTo (pool.world.store.streamOf key)
  reads : ∀ stage, pool.stages[id]? = some stage →
    stage.Reads key first (Reader.after id key first pool.history)

theorem Pool.readBy_start {store : State} (proper : store.Proper) (log : Bytes) (id : Nat)
    (key first : Bytes) : (Pool.start store log).ReadBy id key first where
  proper := Pool.proper_start proper log
  upTo := ⟨rfl, List.nil_prefix, nofun⟩
  reads stage isStage := by simp [Pool.start] at isStage

theorem Pool.ReadBy.step {server : Server} {pool next : Pool} {choice : Choice} {id : Nat}
    {key first : Bytes} (followed : pool.ReadBy id key first)
    (stepped : pool.step server choice = some next)
    (adds : ∀ moment ∈ next.history, moment.what.onlyAdds key = true)
    (faithful : (Reader.after id key first next.history).faithful = true) :
    next.ReadBy id key first := by
  have proper := followed.proper.step stepped
  obtain ⟨rfl, rfl⟩ | ⟨turn, move, stage, moved, world, what, rfl, isStage, moves, rfl⟩ :=
    Pool.step_cases stepped
  · have same : Reader.after id key first pool.accept.history =
        Reader.after id key first pool.history := by
      rw [Pool.accept, Reader.after_concat]
      split <;> rfl
    refine ⟨proper, by rw [same]; exact followed.upTo, fun stage isStage => ?_⟩
    rw [same]
    rw [Pool.accept_lookup] at isStage
    split at isStage
    · cases isStage
      exact True.intro
    · exact followed.reads stage isStage
  · have grew := followed.proper.streamOf_grows isStage moves
      (adds ⟨turn, pool.world, what⟩ (by simp))
    rw [Reader.after_concat] at faithful
    refine ⟨proper, ?_, fun now isNow => ?_⟩
    · rw [Reader.after_concat]
      split
      · rename_i isHere
        rw [if_pos isHere] at faithful
        cases isHere
        exact ((followed.reads stage isStage).moves followed.proper.store followed.upTo moves
          faithful).2.grows grew
      · exact followed.upTo.grows grew
    · rw [Reader.after_concat]
      rw [lookup_set isStage] at isNow
      split at isNow
      · rename_i isHere
        cases isNow
        rw [if_pos isHere.symm] at faithful ⊢
        cases isHere
        exact ((followed.reads stage isStage).moves followed.proper.store followed.upTo moves
          faithful).1
      · rename_i elsewhere
        rw [if_neg fun same => elsewhere same.symm]
        exact followed.reads now isNow

theorem Reader.faithful_of_concat {history : List Moment}
    (faithful : (after id key first (history ++ [moment])).faithful = true) :
    (after id key first history).faithful = true := by
  rw [after_concat] at faithful
  split at faithful
  · exact faithful_of_follow faithful
  · exact faithful

/-- A client that reads on from the last id it was returned is returned every entry past the one
it began at once and in order, while nothing but `XADD` writes to the stream. -/
theorem reader_misses_nothing (server : Server) (store : State) (log : Bytes)
    (proper : store.Proper) (choices : List Choice) (pool : Pool)
    (ran : Run.after (Pool.step server) (.start store log) choices = some pool)
    (id : Nat) (key first : Bytes)
    -- nothing but `XADD` writes to the key
    (adds : ∀ moment ∈ pool.history, moment.what.onlyAdds key = true)
    -- and each read of it gives the last id returned, or what the client began with
    (faithful : (Reader.after id key first pool.history).faithful = true) :
    let reader := Reader.after id key first pool.history
    -- then the client has been returned what is past the id it began at, up to the last read
    reader.returned = (past reader.start reader.seen).map Streams.encodeEntry ∧
      reader.seen <+: pool.world.store.streamOf key ∧
      -- each entry once and in the order of the ids
      (past reader.start reader.seen).Pairwise (fun earlier later => earlier.id < later.id) ∧
      -- and an id is read back as it was spelled
      ∀ (id : EntryId), (∀ key keys words,
          Streams.parsePending (key :: keys) (utf8 id.toText :: words) =
            (Streams.parsePending keys words).map fun pending => (key, some id) :: pending) ∧
        ∀ missingSequence, Streams.parseBound (utf8 id.toText) missingSequence = some id := by
  have followed := Run.invariant_always
    (fun pool : Pool => (∀ moment ∈ pool.history, moment.what.onlyAdds key = true) →
      (Reader.after id key first pool.history).faithful = true → pool.ReadBy id key first)
    (fun pool choice next followed stepped adds faithful => by
      obtain ⟨moment, happened⟩ := Pool.history_of_step stepped
      have before := followed
        (fun earlier member => adds earlier (by rw [happened]; exact List.mem_append_left _ member))
        (Reader.faithful_of_concat (by rwa [happened] at faithful))
      exact before.step stepped adds faithful)
    (fun _ _ => Pool.readBy_start proper log id key first) ran adds faithful
  have ordered := followed.proper.store.streamOf_ordered key
  exact ⟨followed.upTo.returned, followed.upTo.seen,
    (ordered.sublist followed.upTo.seen.sublist).filter _,
    fun id => ⟨Streams.parsePending_toText id, Streams.parseBound_toText id⟩⟩

end

/-- A client reads a stream from its start, and waits for what comes after the entry it was
returned, while another appends two entries to it. -/
def following : List Choice :=
  [.accept, .accept] ++ Choice.command 1 ["XADD", "s", "1-1", "field", "value"] 4 ++
    Choice.command 0 ["XREAD", "STREAMS", "s", "0-0"] 2 ++
    Choice.begun 0 ["XREAD", "BLOCK", "0", "STREAMS", "s", "1-1"] 2 ++
    Choice.command 1 ["XADD", "s", "1-2", "field", "value"] 4 ++
    [.turn 0 (.call {}), .turn 0 (.call {}), .turn 0 .answer]

theorem reader_misses_nothing_following :
    let _ := Platform.ascii
    ∃ pool, Run.after (Pool.step { rounds := 1 }) (.start {} []) following = some pool ∧
      let reader := Reader.after 0 (utf8 "s") (utf8 "0-0") pool.history
      reader.returned = (past reader.start reader.seen).map Streams.encodeEntry ∧
      reader.start = .zero ∧ reader.seen.map StreamEntry.id = [⟨1, 1⟩, ⟨1, 2⟩] := by
  intro platform
  obtain ⟨pool, ran, seen⟩ := (Option.any_eq_true
    (fun pool : Pool =>
      let reader := Reader.after 0 (utf8 "s") (utf8 "0-0") pool.history
      pool.history.all (fun moment => moment.what.onlyAdds (utf8 "s")) && reader.faithful &&
        reader.start == .zero && reader.seen.map StreamEntry.id == [⟨1, 1⟩, ⟨1, 2⟩])
    (Run.after (Pool.step { rounds := 1 }) (.start {} []) following)).mp (by decide +kernel)
  simp only [Bool.and_eq_true, beq_iff_eq, List.all_eq_true] at seen
  obtain ⟨⟨⟨adds, faithful⟩, start⟩, ids⟩ := seen
  exact ⟨pool, ran, (reader_misses_nothing { rounds := 1 } {} [] State.proper_empty following pool
    ran 0 (utf8 "s") (utf8 "0-0") adds faithful).1, start, ids⟩

end RedisServer
