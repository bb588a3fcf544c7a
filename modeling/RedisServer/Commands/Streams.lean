import RedisServer.Commands.Strings

/-!
# Commands on streams

A blocking `XREAD` reads again every time one of its streams grows.  The loop has
no bound of its own, so the server's `rounds` says how often it may be woken in
vain; what holds whatever that number is holds of the loop.
-/

namespace RedisServer.Streams

def invalidId : Value :=
  .error "ERR Invalid stream ID specified as stream command argument"

/-- Fields and values taken two by two. -/
def pairs : List Bytes → List (Bytes × Bytes)
  | field :: value :: rest => (field, value) :: pairs rest
  | _ => []

def xadd (key id : Bytes) (fields : List Bytes) : Prog Value :=
  match (text id).bind RequestedId.fromStr with
  | none => .ret invalidId
  | some requested =>
    ask (.on key (.xadd requested (pairs fields))) fun
      | .ok id => bulk id.toText
      | .error .wrongType => wrongType
      | .error .notAboveZero =>
        .error "ERR The ID specified in XADD must be greater than 0-0"
      | .error .notAboveTop => .error <|
          "ERR The ID specified in XADD is equal or smaller than the target " ++
            "stream top item"

/-- An id without a sequence number takes the one given. -/
def parseId (id : String) (missingSequence : UInt64) : Option EntryId :=
  match splitOnce '-' id with
  | some (milliseconds, sequence) =>
    match parseHalf sequence, parseHalf milliseconds with
    | some sequence, some milliseconds => some ⟨milliseconds, sequence⟩
    | _, _ => none
  | none => (parseHalf id).map fun milliseconds => ⟨milliseconds, missingSequence⟩

/-- `XRANGE` also takes the two ends of the stream in place of an id. -/
def parseBound (bound : Bytes) (missingSequence : UInt64) : Option EntryId :=
  match text bound with
  | none => none
  | some "-" => some EntryId.zero
  | some "+" => some EntryId.max
  | some id => parseId id missingSequence

/-- An entry is its id followed by a flat array of its fields and values. -/
def encodeEntry (entry : StreamEntry) : Value :=
  .array [bulk entry.id.toText,
    .array (entry.fields.flatMap fun pair => [.bulkString pair.1, .bulkString pair.2])]

def xrange (key start stop : Bytes) : Prog Value :=
  match parseBound start 0, parseBound stop (UInt64.ofNat u64Max) with
  | some start, some stop =>
    ask (.on key (.xrange start stop)) fun
      | .ok entries => .array (entries.map encodeEntry)
      | .error _ => wrongType
  | _, _ => .ret invalidId

/-- How long an `XREAD` is willing to wait for entries to turn up. -/
inductive Wait where
  /-- Without `BLOCK`, the reply holds whatever is there right now. -/
  | notAtAll
  | until (deadline : Instant)
  | forever
  deriving DecidableEq, Repr

/-- The keys come first and their ids follow.  `$` is left open. -/
def parsePending : List Bytes → List Bytes →
    Except Value (List (Bytes × Option EntryId))
  | key :: keys, id :: ids =>
    match text id with
    | none => .error invalidId
    | some "$" => (parsePending keys ids).map fun pending => (key, none) :: pending
    | some id =>
      match parseId id 0 with
      | none => .error invalidId
      | some after => (parsePending keys ids).map fun pending => (key, some after) :: pending
  | _, _ => .ok []

/-- Reads `STREAMS <key>... <id>...`. -/
def parseStreams (rest : List Bytes) : Except Value (List (Bytes × Option EntryId)) :=
  match rest with
  | [] => .error (wrongArity "xread")
  | streams :: arguments =>
    if eqIgnoreAsciiCase streams (utf8 "STREAMS") then
      if arguments.isEmpty ∨ arguments.length % 2 ≠ 0 then
        .error <| .error <|
          "ERR Unbalanced XREAD list of streams: for each stream key an ID or '$' " ++
            "must be specified."
      else
        let half := arguments.length / 2
        parsePending (arguments.take half) (arguments.drop half)
    else .error syntaxError

/-- Reads the `[BLOCK <milliseconds>]` in front, and what is left after it. -/
def parseBlock (args : List Bytes) : Except Value (Option Nat × List Bytes) :=
  match args with
  | block :: milliseconds :: rest =>
    if eqIgnoreAsciiCase block (utf8 "BLOCK") then
      match (text milliseconds).bind parseU64 with
      | some milliseconds => .ok (some milliseconds, rest)
      | none => .error (.error "ERR timeout is not an integer or out of range")
    else .ok (none, args)
  | _ => .ok (none, args)

/-- A reply with no streams left in it has nothing to report. -/
def encodeStreams (streams : List (Bytes × List StreamEntry)) : Value :=
  if streams.isEmpty then .nullArray
  else
    .array (streams.map fun (key, entries) =>
      .array [.bulkString key, .array (entries.map encodeEntry)])

/-- Reads again every time one of the streams grows, until something turns up or
the deadline passes. -/
def waitForEntries (reads : List (Bytes × EntryId)) (deadline : Option Instant) :
    Nat → Prog Value
  | 0 => .call .never Empty.elim
  | rounds + 1 =>
    .call (.store (.xreadOrWatch reads)) fun
      | .ok (.ready streams) => .ret (encodeStreams streams)
      | .ok (.waiting waker) =>
        .call (.notified waker deadline) fun woken =>
          if woken then waitForEntries reads deadline rounds else .ret .nullArray
      | .error _ => .ret wrongType

/-- Reads the entries recorded after the given ids, which are exclusive. -/
def readAfter (server : Server) (wait : Wait) (rest : List Bytes) : Prog Value :=
  match parseStreams rest with
  | .error error => .ret error
  | .ok pending =>
    .call (.store (.resolveReads pending)) fun
      | .error _ => .ret wrongType
      | .ok reads =>
        match wait with
        | .notAtAll =>
          ask (.xread reads) fun
            | .ok streams => encodeStreams streams
            | .error _ => wrongType
        | .forever => waitForEntries reads none (server.rounds + 1)
        | .until deadline => waitForEntries reads (some deadline) (server.rounds + 1)

/-- Reads, optionally waiting for new entries to arrive.  The deadline is fixed
while the arguments are still being read. -/
def xread (server : Server) (args : List Bytes) : Prog Value :=
  match parseBlock args with
  | .error error => .ret error
  | .ok (none, rest) => readAfter server .notAtAll rest
  | .ok (some 0, rest) => readAfter server .forever rest
  | .ok (some milliseconds, rest) =>
    .call .now fun now =>
      match instantAdd now (Duration.ofMillis milliseconds) with
      | some deadline => readAfter server (.until deadline) rest
      | none => .call .overflow Empty.elim

/-- Handles the commands that work on streams. -/
def run (server : Server) (command : String) (args : List Bytes) : Option (Prog Value) :=
  match command with
  | "XADD" => some <|
      match args with
      | key :: id :: field :: fields =>
        if (field :: fields).length % 2 = 0 then xadd key id (field :: fields)
        else .ret (wrongArity "xadd")
      | _ => .ret (wrongArity "xadd")
  | "XRANGE" => some <|
      match args with
      | [key, start, stop] => xrange key start stop
      | _ => .ret (wrongArity "xrange")
  | "XREAD" => some (xread server args)
  | _ => none

end RedisServer.Streams
