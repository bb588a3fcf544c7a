import RedisServer.Server.World

/-!
# Commands and who sends them

A command arrives as an array of bulk strings, the first of which names it.  What
belongs to the connection alone is a `Client`: the transaction it is in the middle
of, the channels it listens on and whether it has been let in.
-/

namespace RedisServer

/-- One command as the client sent it.  The name is kept as it was spelled and
uppercased, since command names are case insensitive. -/
structure Command where
  uppercased : String
  name : Bytes
  args : List Bytes
  deriving DecidableEq, Repr

/-- The transaction a connection is in the middle of. -/
structure Transaction where
  /-- The commands written down so far, once `MULTI` has opened the queue. -/
  queued : Option (List Command) := none
  /-- The watched keys, each with the version it held at the time. -/
  watched : Map Bytes (Option Nat) := ∅

/-- The channels one client listens on.  A command played back out of a record
has no listener of its own to be told anything. -/
structure Subscriptions where
  on : List Bytes := []
  listener : Option Nat := none

/-- What belongs to one connection. -/
structure Client where
  transaction : Transaction := {}
  subscriptions : Subscriptions := {}
  authenticated : Bool := true

/-- What a command leaves the connection it came in on. -/
inductive Answer where
  | reply (value : Value)
  | replica (value : Value)

/-! ## Replies the modules share -/

def bulk (text : String) : Value := .bulkString (utf8 text)

def ok : Value := .simpleString "OK"

def unknownCommand (name : Bytes) : Value :=
  .error ("ERR unknown command '" ++ fromUtf8Lossy name ++ "'")

def wrongArity (command : String) : Value :=
  .error ("ERR wrong number of arguments for '" ++ command ++ "' command")

def notAnInteger : Value := .error "ERR value is not an integer or out of range"

/-- What a client is told when its write could not be written down. -/
def unrecorded : Value := .error "MISCONF Errors writing to the AOF file"

def wrongType : Value :=
  .error "WRONGTYPE Operation against a key holding the wrong kind of value"

def syntaxError : Value := .error "ERR syntax error"

def notAFloat : Value := .error "ERR value is not a valid float"

/-! ## Reading a command -/

/-- The contents of values that are all bulk strings. -/
def bulkStrings : List Value → Option (List Bytes)
  | [] => some []
  | .bulkString bytes :: values => (bulkStrings values).map fun rest => bytes :: rest
  | _ :: _ => none

/-- The words of a command; anything but an array of bulk strings has none. -/
def intoParts : Value → Option (List Bytes)
  | .array parts => bulkStrings parts
  | _ => none

/-- A command laid out the way clients send them. -/
def asCommand (words : List Bytes) : Value := .array (words.map Value.bulkString)

/-- A command of words a client typed. -/
def typed (words : List String) : Value := asCommand (words.map utf8)

namespace Command

variable [Platform]

/-- Reads a command as clients send them. -/
def parse (command : Value) : Except Value Command :=
  match intoParts command with
  | none => .error (.error "ERR expected an array of bulk strings")
  | some [] => .error (.error "ERR empty command")
  | some (name :: args) =>
    match text name with
    | none => .error (unknownCommand name)
    | some spelled => .ok ⟨Platform.toUppercase spelled, name, args⟩

omit [Platform]

/-- The command as it came in, to be handed on word for word. -/
def asSent (command : Command) : Value := asCommand (command.name :: command.args)

end Command

@[simp] theorem intoParts_asCommand (words : List Bytes) :
    intoParts (asCommand words) = some words := by
  simp only [intoParts, asCommand]
  induction words with
  | nil => rfl
  | cons word words ih => simp [bulkStrings, ih]

/-- The words of a command are all there is to it. -/
theorem eq_asCommand_of_intoParts {command : Value} {words : List Bytes}
    (parts : intoParts command = some words) : command = asCommand words := by
  have contents (values : List Value) (words : List Bytes)
      (found : bulkStrings values = some words) : values = words.map Value.bulkString := by
    induction values generalizing words with
    | nil =>
      simp only [bulkStrings, Option.some.injEq] at found
      simp [← found]
    | cons value values ih =>
      cases value with
      | bulkString bytes =>
        simp only [bulkStrings, Option.map_eq_some_iff] at found
        obtain ⟨rest, isRest, rfl⟩ := found
        simp [ih rest isRest]
      | _ => cases found
  cases command with
  | array values => rw [asCommand, contents values words parts]
  | _ => cases parts

/-- A command named in capitals. -/
theorem Command.parse_capitals [Platform] {name : String}
    (ascii : ∀ char ∈ name.toList, char.val < 128)
    (capitals : name.toList.map Char.toUpper = name.toList) (args : List Bytes) :
    Command.parse (asCommand (utf8 name :: args)) = .ok ⟨name, utf8 name, args⟩ := by
  have uppercased : Platform.toUppercase name = name :=
    String.toList_inj.mp ((Platform.toUppercase_ascii name ascii).trans capitals)
  simp [Command.parse, uppercased]

end RedisServer
