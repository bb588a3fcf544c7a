import RedisServer.Commands.Shape
import RedisServer.Store.Numbering
import RedisServer.Store.Tail
import RedisServer.Lib.Protocol

/-!
# `XREAD` and the ids it is given

An id is read back from its own spelling wherever a command takes one.  An `XREAD` settles
the ids it was given, reads the streams from them on until there is something to answer
with, and answers with what the last read found.
-/

namespace RedisServer

variable {key word : Bytes} {keys ids : List Bytes} {error : Value} {command : Command}

namespace Streams

/-! ## Ids as they are spelled -/

theorem parseId_toText (id : EntryId) (missingSequence : UInt64) :
    parseId id.toText missingSequence = some id := by
  rw [parseId, id.splitOnce_toText]
  simp only [parseHalf_toString]

/-- An id is no other text that can stand in its place. -/
theorem toText_ne {text : String} (whole : splitOnce '-' text = none ∨ parseId text 0 = none)
    (id : EntryId) : id.toText ≠ text := by
  rintro rfl
  rcases whole with whole | whole
  · rw [id.splitOnce_toText] at whole
    cases whole
  · rw [parseId_toText] at whole
    cases whole

theorem parseBound_toText (id : EntryId) (missingSequence : UInt64) :
    parseBound (utf8 id.toText) missingSequence = some id := by
  rw [parseBound, text_utf8]
  split
  · cases ‹_›
  · rename_i isDash
    exact absurd (Option.some.inj isDash) (toText_ne (.inr (by decide +kernel)) id)
  · rename_i isPlus
    exact absurd (Option.some.inj isPlus) (toText_ne (.inl (by decide +kernel)) id)
  · rename_i isText
    cases isText
    exact parseId_toText id missingSequence

/-- What `XREAD` makes of the word given for a stream, `$` being left open. -/
def pendingId (word : Bytes) : Option (Option EntryId) :=
  match text word with
  | none => none
  | some "$" => some none
  | some id => (parseId id 0).map some

theorem pendingId_toText (id : EntryId) : pendingId (utf8 id.toText) = some (some id) := by
  rw [pendingId, text_utf8]
  split
  · cases ‹_›
  · rename_i isDollar
    exact absurd (Option.some.inj isDollar) (toText_ne (.inl (by decide +kernel)) id)
  · rename_i isText
    cases isText
    rw [parseId_toText, Option.map_some]

theorem parsePending_toText (id : EntryId) (key : Bytes) (keys words : List Bytes) :
    parsePending (key :: keys) (utf8 id.toText :: words) =
      (parsePending keys words).map fun pending => (key, some id) :: pending := by
  rw [parsePending, text_utf8]
  split
  · cases ‹_›
  · rename_i isDollar
    exact absurd (Option.some.inj isDollar) (toText_ne (.inl (by decide +kernel)) id)
  · rename_i isText
    cases isText
    simp only [parseId_toText]

/-- The words that stand beside a key. -/
def wordsBeside (key : Bytes) (keys ids : List Bytes) : List Bytes :=
  ((keys.zip ids).filter fun named => named.1 = key).map Prod.snd

theorem parsePending_at {pending : List (Bytes × Option EntryId)}
    (parsed : parsePending keys ids = .ok pending) (key : Bytes) :
    (pending.filter fun read => read.1 = key).map (fun read => some read.2) =
      (wordsBeside key keys ids).map pendingId := by
  induction keys generalizing ids pending with
  | nil =>
    cases parsed
    rfl
  | cons name keys ih =>
    cases ids with
    | nil =>
      cases parsed
      rfl
    | cons word ids =>
      -- what is left of the words, once this one has been read
      have rest {id : Option EntryId} (read : pendingId word = some id)
          (mapped : (parsePending keys ids).map (fun pending => (name, id) :: pending) =
            .ok pending) :
          (pending.filter fun read => read.1 = key).map (fun read => some read.2) =
            (wordsBeside key (name :: keys) (word :: ids)).map pendingId := by
        cases others : parsePending keys ids with
        | error error =>
          rw [others] at mapped
          cases mapped
        | ok later =>
          rw [others] at mapped
          cases mapped
          have same := ih others
          by_cases here : name = key <;> simp_all [wordsBeside]
      rw [parsePending] at parsed
      split at parsed
      · cases parsed
      · rename_i isDollar
        exact rest (by simp [pendingId, isDollar]) parsed
      · rename_i id notDollar isText
        split at parsed
        · cases parsed
        · rename_i after isId
          refine rest ?_ parsed
          rw [pendingId, isText]
          simp [isId]

/-- One word beside a key leaves one read of it. -/
theorem parsePending_once {pending : List (Bytes × Option EntryId)}
    (parsed : parsePending keys ids = .ok pending) (once : wordsBeside key keys ids = [word]) :
    ∃ id, pendingId word = some id ∧ (pending.filter fun read => read.1 = key) = [(key, id)] := by
  have same := parsePending_at parsed key
  rw [once, List.map_singleton, List.map_eq_singleton_iff] at same
  obtain ⟨⟨name, id⟩, isRead, read⟩ := same
  have named : (name, id) ∈ pending.filter fun read => read.1 = key := by simp [isRead]
  obtain rfl : name = key := by simpa using (List.mem_filter.mp named).2
  exact ⟨id, read.symm, isRead⟩

/-! ## What comes back -/

/-- The entries a reply carries for a stream. -/
def returnedAt (key : Bytes) : Value → List Value
  | .array streams => streams.flatMap fun
      | .array [.bulkString name, .array entries] => if name = key then entries else []
      | _ => []
  | _ => []

theorem returnedAt_of_isError {value : Value} (isError : value.isError = true) (key : Bytes) :
    returnedAt key value = [] := by
  cases value with
  | error message => rfl
  | _ => cases isError

theorem parsePending_isError (refused : parsePending keys ids = .error error) :
    error.isError = true := by
  induction keys generalizing ids with
  | nil => cases refused
  | cons name keys ih =>
    cases ids with
    | nil => cases refused
    | cons word ids =>
      rw [parsePending] at refused
      split at refused
      · cases refused
        rfl
      · exact ih (error_of_map refused)
      · split at refused
        · cases refused
          rfl
        · exact ih (error_of_map refused)

theorem parseStreams_isError {rest : List Bytes} (refused : parseStreams rest = .error error) :
    error.isError = true := by
  unfold parseStreams at refused
  split at refused
  · cases refused
    rfl
  · split at refused
    · split at refused
      · cases refused
        rfl
      · exact parsePending_isError refused
    · cases refused
      rfl

theorem parseBlock_isError {args : List Bytes} (refused : parseBlock args = .error error) :
    error.isError = true := by
  unfold parseBlock at refused
  split at refused
  · split at refused
    · split at refused
      · cases refused
      · cases refused
        rfl
    · cases refused
  · cases refused

theorem returnedAt_encodeStreams (key : Bytes) (streams : List (Bytes × List StreamEntry)) :
    returnedAt key (encodeStreams streams) = (foundAt key streams).map encodeEntry := by
  cases streams with
  | nil => rfl
  | cons first streams =>
    rw [encodeStreams, if_neg (by simp), returnedAt]
    induction first :: streams with
    | nil => rfl
    | cons stream streams ih =>
      obtain ⟨name, entries⟩ := stream
      rw [List.map_cons, List.flatMap_cons, ih, foundAt_cons, List.map_append]
      by_cases here : name = key <;> simp [here]

end Streams

/-! ## The course of a read -/

/-- The words an `XREAD` gives for a stream. -/
def Command.wordsFor (key : Bytes) (command : Command) : List Bytes :=
  if command.uppercased = "XREAD" then
    match Streams.parseBlock command.args with
    | .ok (_, _ :: arguments) =>
      Streams.wordsBeside key (arguments.take (arguments.length / 2))
        (arguments.drop (arguments.length / 2))
    | _ => []
  else []

/-- How far an `XREAD` has come: it has settled the ids, or read from them. -/
inductive Reading where
  | begun
  | settled (reads : List (Bytes × EntryId))
  | read (reads : List (Bytes × EntryId)) (streams : List (Bytes × List StreamEntry))

/-- What the last read found. -/
def Reading.streams : Reading → List (Bytes × List StreamEntry)
  | .read _ streams => streams
  | _ => []

/-- An `XREAD` that gives a word for a stream settles it once and reads from there. -/
def reading (key word : Bytes) : Protocol calls Reading where
  allows
    | .begun, .store (.resolveReads pending) =>
      ∃ id, Streams.pendingId word = some id ∧
        (pending.filter fun read => read.1 = key) = [(key, id)]
    | .settled reads, .store (.xread others) => others = reads
    | .settled reads, .store (.xreadOrWatch others) => others = reads
    | .read reads _, .store (.xreadOrWatch others) => others = reads
    | _, .store _ => False
    | _, _ => True
  next phase call reply :=
    match call, reply with
    | .store (.resolveReads _), .ok reads => .settled reads
    | .store (.xread reads), .ok streams => .read reads streams
    | .store (.xreadOrWatch reads), .ok found => .read reads found.streams
    | _, _ => phase

/-- What a read is answered with. -/
def Reading.Answers (key : Bytes) (phase : Reading) (value : Value) : Prop :=
  Streams.returnedAt key value = (foundAt key phase.streams).map Streams.encodeEntry

theorem Reading.answers_encodeStreams (key : Bytes) (reads : List (Bytes × EntryId))
    (streams : List (Bytes × List StreamEntry)) :
    (Reading.read reads streams).Answers key (Streams.encodeStreams streams) :=
  Streams.returnedAt_encodeStreams key streams

theorem Reading.answers_nothing {phase : Reading} (nothing : phase.streams = []) {value : Value}
    (unreturned : Streams.returnedAt key value = []) : phase.Answers key value := by
  rw [Reading.Answers, nothing, unreturned]
  rfl

theorem reading_allows {call : Call} (aside : ∀ asked, call ≠ .store asked) (phase : Reading) :
    (reading key word).allows phase call := by
  cases call with
  | store asked => exact absurd rfl (aside asked)
  | _ => cases phase <;> exact True.intro

theorem waitForEntries_reading (key word : Bytes) (reads : List (Bytes × EntryId))
    (deadline : Option Instant) (rounds : Nat) {phase : Reading} (nothing : phase.streams = [])
    (started : (reading key word).allows phase (.store (.xreadOrWatch reads))) :
    (Streams.waitForEntries reads deadline rounds).Keeps (reading key word)
      (Reading.Answers key) phase := by
  induction rounds generalizing phase with
  | zero => exact ⟨reading_allows (fun _ isStore => by cases isStore) phase, nofun⟩
  | succ rounds ih =>
    refine ⟨started, fun answer => ?_⟩
    rcases answer with _ | streams | waker
    · exact Reading.answers_nothing nothing rfl
    · exact Reading.answers_encodeStreams ..
    · refine ⟨True.intro, fun woken => ?_⟩
      cases woken
      · rfl
      · exact ih rfl rfl

theorem readAfter_reading (server : Server) (wait : Streams.Wait) {streams : Bytes}
    {arguments : List Bytes} (once : Streams.wordsBeside key (arguments.take (arguments.length / 2))
      (arguments.drop (arguments.length / 2)) = [word]) :
    (Streams.readAfter server wait (streams :: arguments)).Keeps (reading key word)
      (Reading.Answers key) .begun := by
  unfold Streams.readAfter
  split
  · rename_i error refused
    exact Reading.answers_nothing rfl
      (Streams.returnedAt_of_isError (Streams.parseStreams_isError refused) key)
  · rename_i pending parsed
    simp only [Streams.parseStreams] at parsed
    split at parsed
    · split at parsed
      · cases parsed
      · refine ⟨Streams.parsePending_once parsed once, fun answer => ?_⟩
        rcases answer with _ | reads
        · exact Reading.answers_nothing rfl rfl
        · cases wait with
          | notAtAll =>
            refine ⟨rfl, fun answer => ?_⟩
            rcases answer with _ | streams
            · exact Reading.answers_nothing rfl rfl
            · exact Reading.answers_encodeStreams ..
          | _ => exact waitForEntries_reading key word reads _ _ rfl rfl
    · cases parsed

theorem xread_reading (server : Server) (once : command.wordsFor key = [word]) :
    (Streams.xread server command.args).Keeps (reading key word) (Reading.Answers key) .begun := by
  rw [Command.wordsFor] at once
  split at once
  · unfold Streams.xread
    split
    · rename_i error refused
      exact Reading.answers_nothing rfl
        (Streams.returnedAt_of_isError (Streams.parseBlock_isError refused) key)
    all_goals
      rename_i read
      rw [read] at once
      split at once
      rotate_left
      · cases once
      rename_i same
      cases same
    · exact readAfter_reading server _ once
    · exact readAfter_reading server _ once
    · rw [Program.keeps_call]
      refine ⟨True.intro, fun now => ?_⟩
      generalize instantAdd now _ = deadline
      cases deadline with
      | none => exact ⟨True.intro, nofun⟩
      | some deadline => exact readAfter_reading server _ once
  · cases once

/-- What a reader has come to, and what it is answered with. -/
def Reading.Ends (key : Bytes) (phase : Reading) (answered : Answer × Client) : Prop :=
  ∃ value, answered.1 = .reply value ∧ phase.Answers key value

section

variable [Platform]

theorem runAgainst_xread {server : Server} {client : Client}
    (isXread : command.uppercased = "XREAD") :
    runAgainst server client command = client.kept (Streams.xread server command.args) := by
  rw [runAgainst, isXread]
  rfl

/-- A command that reads a stream answers with what it found there. -/
theorem run_reading (server : Server) (client : Client) {asked : Value}
    (parsed : Command.parse asked = .ok command) (once : command.wordsFor key = [word]) :
    (run server client asked).Keeps (reading key word) (Reading.Ends key) .begun := by
  have isXread : command.uppercased = "XREAD" := by
    by_contra other
    rw [Command.wordsFor, if_neg other] at once
    cases once
  rw [run, parsed]
  unfold runCommand
  dsimp only
  split
  · exact ⟨_, rfl, Reading.answers_nothing rfl rfl⟩
  split
  · exact ⟨_, rfl, Reading.answers_nothing rfl rfl⟩
  split
  · exact ⟨_, rfl, Reading.answers_nothing rfl rfl⟩
  · have unsteered : Transactions.steer command client.transaction = none := by
      rw [Transactions.steer, isXread]
      rfl
    rw [carryOut, unsteered]
    refine Program.Keeps.map ?_
    have read : (runAgainst server client command).Keeps (reading key word)
        (fun phase replied => phase.Answers key replied.1) .begun := by
      rw [runAgainst_xread isXread]
      exact Program.Keeps.map (xread_reading server once)
    refine read.bind fun phase replied answers => ?_
    have unwritten : writtenDown command replied.1 = none := by
      simp [writtenDown, recordedAsSent, isXread]
    have isReply : (answer command replied).1 = .reply replied.1 := by
      simp [answer, isXread]
    unfold afterwards
    split
    · exact ⟨_, isReply, answers⟩
    · rw [unwritten]
      exact ⟨_, isReply, answers⟩

end

end RedisServer
