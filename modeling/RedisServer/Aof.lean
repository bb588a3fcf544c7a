import RedisServer.Commands.Command

/-!
# The append-only file

A record of every write as it happens, kept so that a server coming back up can
play its way to where it left off.  The files are kept in a directory of their
own, and a manifest in it lists them.

Opening the record for more leaves a torn command at its end where it is, and what
is recorded next runs into it: a record survives being added to exactly when it
ends where a command ends.
-/

namespace RedisServer

/-- A directory of append-only files: what each file in it holds. -/
abbrev Directory := Map String Bytes

/-- Why a server does not come up over a directory. -/
inductive StartError where
  | manifestNotText
  | malformed (error : ParseError)
  deriving DecidableEq, Repr

namespace Aof

/-- The first of the files the commands are recorded in as they come. -/
def first : Nat := 1

/-- How the manifest marks a file holding the commands as they came in. -/
def incremental : String := "i"

def incrementalName (config : Config) (sequence : Nat) : String :=
  config.appendfilename ++ "." ++ toString sequence ++ ".incr.aof"

/-- The name of the manifest. -/
def manifest (config : Config) : String := config.appendfilename ++ ".manifest"

/-- The manifest as it stands with only the first file written to. -/
def listing (config : Config) : String :=
  "file " ++ incrementalName config first ++ " seq " ++ toString first ++ " type " ++
    incremental ++ "\n"

/-! ## Reading a manifest -/

/-- The characters Unicode counts as white space. -/
def isWhitespace (char : Char) : Bool :=
  let code := char.toNat
  (9 ≤ code && code ≤ 13) || code = 0x20 || code = 0x85 || code = 0xA0 || code = 0x1680 ||
    (0x2000 ≤ code && code ≤ 0x200A) || code = 0x2028 || code = 0x2029 ||
    code = 0x202F || code = 0x205F || code = 0x3000

/-- The words of a line. -/
def words (line : List Char) : List String :=
  ((line.splitOnP isWhitespace).filter fun word => !word.isEmpty).map String.ofList

/-- Takes the carriage return off the end of a line. -/
def withoutReturn (line : List Char) : List Char :=
  match line.getLast? with
  | some '\r' => line.dropLast
  | _ => line

/-- The lines of a text.  The last need not be ended. -/
def lines (content : String) : List (List Char) :=
  let pieces := content.toList.splitOn '\n'
  let pieces := if pieces.getLast? = some [] then pieces.dropLast else pieces
  pieces.map withoutReturn

/-- Reads fields, each a name followed by its value, passing over the ones there
is no use for. -/
def fields (name kind : Option String) : List String → Option (String × String)
  | field :: value :: rest =>
    if field = "file" then fields (some value) kind rest
    else if field = "type" then fields name (some value) rest
    else fields name kind rest
  | _ =>
    match name, kind with
    | some name, some kind => some (name, kind)
    | _, _ => none

/-- One line of a manifest, as the file it names and what that file holds. -/
def listed (line : List Char) : Option (String × String) := fields none none (words line)

/-- The name of the file the incoming commands belong in, according to a manifest
that is already there: the last incremental file listed. -/
def recordedIn (directory : Directory) (manifest : String) :
    Except StartError (Option String) :=
  match directory[manifest]? with
  | none => .ok none
  | some bytes =>
    match text bytes with
    | none => .error .manifestNotText
    | some content =>
      let files := ((lines content).filterMap listed).filter fun listed =>
        listed.2 = incremental
      .ok (files.getLast?.map Prod.fst)

/-- Sees to it that there is a file to record in, and opens it to be written on
the end of.  `none` is a server told to keep no record. -/
def prepare (config : Config) (directory : Directory) :
    Except StartError (Option (String × Directory)) :=
  if config.appendonly then
    match recordedIn directory (manifest config) with
    | .error error => .error error
    | .ok found =>
      let named :=
        match found with
        | some name => (name, directory)
        | none =>
          (incrementalName config first,
            directory.insert (manifest config) (utf8 (listing config)))
      let held := named.2[named.1]?.getD []
      .ok (some (named.1, named.2.insert named.1 held))
  else .ok none

/-! ## Recording and reading back -/

/-- The commands a log holds, in the order they were recorded.  A command the log
ends in the middle of is left off. -/
def recorded (log : Bytes) : Except ParseError (List Value) :=
  Framing.readAll reader log.length log

/-- Adds a command to the end of a file. -/
def record (name : String) (directory : Directory) (command : Value) : Directory :=
  directory.insert name (directory[name]?.getD [] ++ command.encode)

/-- Comes up over a directory: the file to record in, and what it holds already. -/
def start (config : Config) (directory : Directory) :
    Except StartError (Option (String × Directory × List Value)) :=
  match prepare config directory with
  | .error error => .error error
  | .ok none => .ok none
  | .ok (some (name, directory)) =>
    match recorded (directory[name]?.getD []) with
    | .error error => .error (.malformed error)
    | .ok commands => .ok (some (name, directory, commands))

/-- Comes up over a directory, records commands, stops and comes up again: what
the second start reads. -/
def startedAgain (config : Config) (directory : Directory) (commands : List Value) :
    Except StartError (Option (List Value)) :=
  match start config directory with
  | .error error => .error error
  | .ok none => .ok none
  | .ok (some (name, directory, _)) =>
    (start config (commands.foldl (record name) directory)).map
      (Option.map fun started => started.2.2)

end Aof

/-! ## What survives a torn record -/

/-- Words that make a command a client can send. -/
structure Sendable (words : List Bytes) : Prop where
  nonempty : words ≠ []
  countable : words.length ≤ usizeMax
  small : ∀ word ∈ words, word.length ≤ maxBulkLength

/-- A value that came in over a connection. -/
def Received (found : Value) : Prop := ∃ input taken, parse input = .ok (some (found, taken))

/-- What a command is read from announces how many words follow. -/
theorem asCommand_eq_some {input rest : Bytes} {words : List Bytes}
    (read : value maxDepth input = .ok (some (asCommand words, rest))) :
    ∃ payload after inner, line input = some (42 :: payload, after) ∧
      headerLength payload = .ok words.length ∧
      elements (value inner) words.length after =
        .ok (some (words.map Value.bulkString, rest)) := by
  obtain ⟨kind, payload, after, opened, cases⟩ := value_eq_some read
  obtain ⟨inner, length, values, rfl, -, announced, found, isArray⟩ : ∃ inner length values,
      kind = 42 ∧ maxDepth = inner + 1 ∧ headerLength payload = .ok length ∧
      elements (value inner) length after = .ok (some (values, rest)) ∧
      asCommand words = .array values := by
    simpa [asCommand] using cases
  obtain rfl := Value.array.inj isArray
  obtain rfl : words.length = length := by simpa using elements_length found
  exact ⟨payload, after, inner, opened, announced, found⟩

theorem Received.sendable {words : List Bytes} (received : Received (asCommand words))
    (nonempty : words ≠ []) : Sendable words := by
  obtain ⟨input, taken, parsed⟩ := received
  have read : ∃ rest, value maxDepth input = .ok (some (asCommand words, rest)) := by
    unfold parse at parsed
    cases read : value maxDepth input with
    | error error => simp [read, Except.map] at parsed
    | ok result =>
      cases result with
      | none => simp [read, Except.map] at parsed
      | some found =>
        simp only [read, Except.map, Option.map_some, Except.ok.injEq, Option.some.injEq,
          Prod.mk.injEq] at parsed
        exact ⟨found.2, by rw [← parsed.1]⟩
  obtain ⟨rest, read⟩ := read
  obtain ⟨payload, after, inner, -, announced, found⟩ := asCommand_eq_some read
  refine ⟨nonempty, headerLength_le announced, fun word member => ?_⟩
  obtain ⟨before, next, isWord⟩ :=
    exists_read_of_elements found (.bulkString word) (List.mem_map_of_mem member)
  exact bulkString_le isWord

theorem Sendable.delimits {words : List Bytes} (sendable : Sendable words) :
    Framing.Delimits reader Value.encode (asCommand words) := by
  have found := @delimits_array 7 (words.map Value.bulkString)
    (by simpa using sendable.countable) (by
      intro inner member
      obtain ⟨word, isWord, rfl⟩ := List.mem_map.mp member
      exact delimits_bulkString 7 (sendable.small word isWord))
  exact ⟨found.nonempty, fun rest => by rw [reader_eq_value]; exact found.whole rest,
    fun cut short => by rw [reader_eq_value]; exact found.part cut short⟩

theorem Sendable.received {words : List Bytes} (sendable : Sendable words) :
    Received (asCommand words) := by
  have found := sendable.delimits.whole []
  rw [List.append_nil, reader_eq_value] at found
  exact ⟨(asCommand words).encode, _, by rw [parse, found]; rfl⟩

theorem typed_received {words : List String} (nonempty : words ≠ [])
    (countable : words.length ≤ usizeMax)
    (small : ∀ word ∈ words, (utf8 word).length ≤ maxBulkLength) :
    Received (typed words) :=
  Sendable.received ⟨by simpa using nonempty, by simpa using countable, by simpa using small⟩

theorem encode_asCommand (words : List Bytes) :
    (asCommand words).encode =
      header 42 (decimal words.length) ++ encodeAll (words.map Value.bulkString) := by
  simp [asCommand, Value.encode]

/-- A command that runs into a torn one of another length is not read back. -/
theorem reader_torn {torn words : List Bytes} (sendable : Sendable torn)
    (different : words.length ≠ torn.length) {part : Nat} (started : 0 < part)
    (rest : Bytes) :
    reader ((asCommand torn).encode.take part ++ (asCommand words).encode) ≠
      .ok (some (asCommand words, rest)) := by
  rw [reader_eq_value]
  intro read
  obtain ⟨payload, after, inner, opened, announced, -⟩ := asCommand_eq_some read
  rw [encode_asCommand torn] at opened
  by_cases inHeader : part < (header 42 (decimal torn.length)).length
  · -- the line runs on into the command that follows, and so is no length
    rw [List.take_append_of_le_length inHeader.le, encode_asCommand,
      header_eq 42 (decimal words.length), ← List.append_assoc, ← List.append_assoc,
      line_append_crlf (line_append_eq_none
        (line_numbered_part (by decide) torn.length part inHeader)
        (line_numbered_eq_none (by decide) words.length) (by simp))] at opened
    obtain ⟨part, rfl⟩ : ∃ less, part = less + 1 := ⟨part - 1, by omega⟩
    simp only [header, List.cons_append, List.take_succ_cons, Option.some.injEq, Prod.mk.injEq,
      List.cons.injEq, true_and] at opened
    simp only [headerLength, headerText] at announced
    cases isText : text payload with
    | none => simp [isText] at announced
    | some content =>
      simp only [isText] at announced
      split at announced
      · rename_i number parsed
        refine ne_star_of_parseUnsigned parsed 42 ?_ rfl
        rw [← text_eq_some isText, ← opened.1]
        simp
      · cases announced
  · rw [List.take_append, List.take_of_length_le (by omega), List.append_assoc,
      line_numbered 42 (by decide)] at opened
    simp only [Option.some.injEq, Prod.mk.injEq, List.cons.injEq, true_and] at opened
    rw [← opened.1, headerLength_decimal sendable.countable] at announced
    exact different (Except.ok.inj announced).symm

namespace Aof

/-- Reading a cut log yields the commands lying wholly inside it. -/
theorem recorded_take {commands : List (List Bytes)}
    (sendable : ∀ words ∈ commands, Sendable words) (cut : Nat) :
    recorded ((encodeAll (commands.map asCommand)).take cut) =
      .ok (Framing.wholly Value.encode (commands.map asCommand) cut) := by
  rw [encodeAll_eq_flatMap]
  refine Framing.readAll_length_take (fun command member => ?_) cut
  obtain ⟨words, isWords, rfl⟩ := List.mem_map.mp member
  exact (sendable words isWords).delimits

/-- Reading any front part of a log yields the commands that end inside it, in order. -/
theorem recorded_cut (commands : List (List Bytes)) (log : Bytes)
    (sendable : ∀ words ∈ commands, Sendable words)
    (cut : log <+: encodeAll (commands.map asCommand)) :
    ∃ count, recorded log = .ok ((commands.take count).map asCommand) ∧
      ∀ index < commands.length, index < count ↔
        (encodeAll ((commands.take (index + 1)).map asCommand)).length ≤ log.length := by
  obtain ⟨count, isTake, kept⟩ :=
    Framing.exists_wholly_eq_take Value.encode (commands.map asCommand) log.length
  refine ⟨count, ?_, fun index within => ?_⟩
  · rw [List.prefix_iff_eq_take.mp cut, recorded_take sendable, isTake, List.map_take]
  · rw [kept index (by simpa using within), ← encodeAll_eq_flatMap, List.map_take]

/-- A log of two commands that ends between the two bytes that end the second. -/
theorem recorded_cut_twice :
    ∃ count, recorded ((encodeAll [asCommand [[83], [97]], asCommand [[83], [98]]]).take 35) =
        .ok (([[[83], [97]], [[83], [98]]].take count).map asCommand) ∧ count = 1 := by
  obtain ⟨count, isRead, kept⟩ := recorded_cut [[[83], [97]], [[83], [98]]]
    ((encodeAll [asCommand [[83], [97]], asCommand [[83], [98]]]).take 35)
    (by simpa using ⟨⟨by simp, by decide, by simp [maxBulkLength]⟩,
      ⟨by simp, by decide, by simp [maxBulkLength]⟩⟩)
    (List.take_prefix _ _)
  refine ⟨count, isRead, ?_⟩
  have first := (kept 0 (by decide)).mpr (by decide)
  have second := mt (kept 1 (by decide)).mp (by decide)
  omega

theorem recorded_encodeAll {commands : List (List Bytes)}
    (sendable : ∀ words ∈ commands, Sendable words) :
    recorded (encodeAll (commands.map asCommand)) = .ok (commands.map asCommand) := by
  have whole := recorded_take sendable (encodeAll (commands.map asCommand)).length
  rwa [List.take_length, Framing.wholly_eq_self (by rw [encodeAll_eq_flatMap])] at whole

/-- Recording commands puts their encodings at the end of the file. -/
theorem foldl_record {name : String} {directory : Directory} {log : Bytes}
    (held : directory[name]? = some log) (commands : List Value) :
    (commands.foldl (record name) directory)[name]? = some (log ++ encodeAll commands) ∧
      ∀ other, other ≠ name →
        (commands.foldl (record name) directory)[other]? = directory[other]? := by
  induction commands generalizing directory log with
  | nil => simp [encodeAll, held]
  | cons command commands ih =>
    have recorded : (record name directory command)[name]? =
        some (log ++ command.encode) := by
      simp [record, held]
    obtain ⟨here, elsewhere⟩ := ih recorded
    refine ⟨by simpa [encodeAll] using here, fun other different => ?_⟩
    rw [List.foldl_cons, elsewhere other different, record, Map.lookup_insert,
      if_neg different]

section

variable {config : Config} {directory : Directory} {name : String} {log : Bytes}

/-- A server coming up over a directory follows its manifest. -/
theorem start_listed (appendonly : config.appendonly)
    (listed : recordedIn directory (manifest config) = .ok (some name))
    (held : directory[name]? = some log) :
    start config directory =
      match recorded log with
      | .error error => .error (.malformed error)
      | .ok commands => .ok (some (name, directory.insert name log, commands)) := by
  simp only [start, prepare, appendonly, if_true, listed, held, Option.getD_some,
    Map.lookup_insert]

theorem recordedIn_congr {other : Directory} {manifest : String}
    (same : other[manifest]? = directory[manifest]?) :
    recordedIn other manifest = recordedIn directory manifest := by
  simp only [recordedIn, same]

/-- The second start reads the log the first one came up over, followed by what
was recorded since. -/
theorem startedAgain_eq (appendonly : config.appendonly)
    (listed : recordedIn directory (manifest config) = .ok (some name))
    (apart : name ≠ manifest config) (held : directory[name]? = some log)
    {before : List Value} (readable : recorded log = .ok before) (commands : List Value) :
    startedAgain config directory commands =
      match recorded (log ++ encodeAll commands) with
      | .error error => .error (.malformed error)
      | .ok commands => .ok (some commands) := by
  have opened : (directory.insert name log)[name]? = some log := by
    simp
  obtain ⟨here, elsewhere⟩ := foldl_record opened commands
  have listedStill : recordedIn (commands.foldl (record name) (directory.insert name log))
      (manifest config) = .ok (some name) := by
    rw [← listed]
    refine recordedIn_congr ?_
    rw [elsewhere _ apart.symm, Map.lookup_insert, if_neg apart.symm]
  simp only [startedAgain, start_listed appendonly listed held, readable,
    start_listed appendonly listedStill here]
  cases recorded (log ++ encodeAll commands) <;> rfl

end

/-- A log ending in part of a command does not take every other command after
it: one of a different length is not read back. -/
theorem recorded_torn {whole : List (List Bytes)}
    (sendable : ∀ words ∈ whole, Sendable words) {torn words : List Bytes}
    (tornSendable : Sendable torn) (different : words.length ≠ torn.length) {part : Nat}
    (started : 0 < part) :
    recorded (encodeAll (whole.map asCommand) ++
        ((asCommand torn).encode.take part ++ (asCommand words).encode)) ≠
      .ok (whole.map asCommand ++ [asCommand words]) := by
  intro comesBack
  have delimits : ∀ command ∈ whole.map asCommand,
      Framing.Delimits reader Value.encode command := by
    intro command member
    obtain ⟨words, isWords, rfl⟩ := List.mem_map.mp member
    exact (sendable words isWords).delimits
  have ample := Framing.length_le_append delimits
    ((asCommand torn).encode.take part ++ (asCommand words).encode)
  obtain ⟨fuel, isFuel⟩ := Nat.exists_eq_add_of_le ample
  rw [recorded, encodeAll_eq_flatMap, isFuel, Framing.readAll_append delimits] at comesBack
  cases after : Framing.readAll reader fuel
      ((asCommand torn).encode.take part ++ (asCommand words).encode) with
  | error error => simp [after, Except.map] at comesBack
  | ok commands =>
    simp only [after, Except.map, Except.ok.injEq, List.append_cancel_left_eq] at comesBack
    obtain ⟨rest, read⟩ := Framing.eq_of_readAll_singleton (comesBack ▸ after)
    exact reader_torn tornSendable different started rest read

/-- With nothing recorded since, the second start reads what the log held whole.
Whatever is recorded over a log comes back after that, for every further run of
commands, exactly when the log ends where a command ends. -/
theorem startedAgain_iff_boundary {config : Config} {directory : Directory}
    {name : String} (appendonly : config.appendonly)
    (listed : recordedIn directory (manifest config) = .ok (some name))
    (apart : name ≠ manifest config) {commands : List (List Bytes)}
    (sendable : ∀ words ∈ commands, Sendable words) {cut : Nat}
    (held : directory[name]? = some ((encodeAll (commands.map asCommand)).take cut)) :
    startedAgain config directory [] =
        .ok (some (Framing.wholly Value.encode (commands.map asCommand) cut)) ∧
      ((∀ more : List (List Bytes), (∀ words ∈ more, Sendable words) →
        startedAgain config directory (more.map asCommand) =
          .ok (some (Framing.wholly Value.encode (commands.map asCommand) cut ++
            more.map asCommand))) ↔
        (encodeAll (commands.map asCommand)).take cut =
          encodeAll (Framing.wholly Value.encode (commands.map asCommand) cut)) := by
  have readable := recorded_take sendable cut
  refine ⟨?_, ?_⟩
  · rw [startedAgain_eq appendonly listed apart held readable, encodeAll, List.append_nil, readable]
  have cutOff := Framing.take_flatMap Value.encode (commands.map asCommand) cut
  rw [← encodeAll_eq_flatMap, ← encodeAll_eq_flatMap] at cutOff
  obtain ⟨count, within⟩ : ∃ count,
      Framing.wholly Value.encode (commands.map asCommand) cut =
        (commands.take count).map asCommand := by
    have leading := Framing.wholly_prefix Value.encode (commands.map asCommand) cut
    exact ⟨_, by rw [List.map_take]; exact List.prefix_iff_eq_take.mp leading⟩
  have wholeSendable : ∀ words ∈ commands.take count, Sendable words :=
    fun words member => sendable words (List.mem_of_mem_take member)
  rw [within] at readable cutOff ⊢
  constructor
  · intro comesBack
    rcases cutOff with boundary | ⟨_, member, part, started, -, torn⟩
    · exact boundary
    · obtain ⟨words, isWords, rfl⟩ := List.mem_map.mp member
      obtain ⟨other, otherSendable, different⟩ : ∃ other : List Bytes,
          Sendable other ∧ other.length ≠ words.length := by
        by_cases single : words.length = 1
        · exact ⟨[[], []], ⟨by simp, by decide, by simp⟩, by simp [single]⟩
        · exact ⟨[[]], ⟨by simp, by decide, by simp⟩, by simpa using Ne.symm single⟩
      have back := comesBack [other] (by simpa using otherSendable)
      rw [startedAgain_eq appendonly listed apart held readable, torn] at back
      refine absurd ?_ (recorded_torn wholeSendable (sendable words isWords) different started)
      rw [← List.append_assoc]
      simp only [List.map_cons, List.map_nil, encodeAll, List.append_nil] at back
      generalize recorded _ = outcome at back ⊢
      cases outcome with
      | error error => cases back
      | ok read => simpa using back
  · intro boundary more moreSendable
    have both := @recorded_encodeAll (commands.take count ++ more) (by
      simpa [or_imp, forall_and] using ⟨wholeSendable, moreSendable⟩)
    rw [List.map_append, encodeAll_eq_flatMap, List.flatMap_append, ← encodeAll_eq_flatMap,
      ← encodeAll_eq_flatMap] at both
    rw [startedAgain_eq appendonly listed apart held readable, boundary, both]

/-- A directory as a first start leaves it, but for what the log holds. -/
def directoryHolding (log : Bytes) : Directory :=
  ((∅ : Directory).insert "appendonly.aof.manifest" (utf8 (listing {}))).insert
    "appendonly.aof.1.incr.aof" log

def setA : List Bytes := [utf8 "SET", utf8 "a", utf8 "1"]

/-- What two commands leave, cut off where the first of them ends. -/
def cutBetween : Bytes := (encodeAll [asCommand setA, asCommand [utf8 "INCR", utf8 "b"]]).take 27

theorem startedAgain_between :
    cutBetween = encodeAll [asCommand setA] ∧
      startedAgain { appendonly := true } (directoryHolding cutBetween) [] =
        .ok (some [asCommand setA]) ∧
      ∀ more : List (List Bytes), (∀ words ∈ more, Sendable words) →
        startedAgain { appendonly := true } (directoryHolding cutBetween) (more.map asCommand) =
          .ok (some (asCommand setA :: more.map asCommand)) := by
  have sendable : ∀ words ∈ [setA, [utf8 "INCR", utf8 "b"]], Sendable words :=
    List.forall_mem_cons.mpr ⟨⟨by decide, by decide, by decide +kernel⟩,
      List.forall_mem_singleton.mpr ⟨by decide, by decide, by decide +kernel⟩⟩
  have again := @startedAgain_iff_boundary { appendonly := true } (directoryHolding cutBetween)
    "appendonly.aof.1.incr.aof" rfl rfl (by decide) _ sendable 27 rfl
  exact ⟨rfl, again.1, again.2.mpr rfl⟩

/-- Over the start of `SET a 1`, cut off before its last word, `SET b 2` is recorded
and answered for; the server does not come up again. -/
theorem startedAgain_torn :
    ∃ error, startedAgain { appendonly := true }
      (directoryHolding ((asCommand [utf8 "SET", utf8 "a", utf8 "1"]).encode.take 24))
      [asCommand [utf8 "SET", utf8 "b", utf8 "2"]] = .error (.malformed error) :=
  ⟨.unknownType 10, rfl⟩

end Aof

end RedisServer
