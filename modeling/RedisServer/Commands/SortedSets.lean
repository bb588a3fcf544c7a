import RedisServer.Commands.Lists

/-!
# Commands on sorted sets
-/

namespace RedisServer.SortedSets

/-- Reads a score: any number a double can hold but `nan`, which compares with
nothing. -/
def score (score : Bytes) : Except Value Float :=
  match (text score).bind parseF64 with
  | some score => if score.isNaN then .error notAFloat else .ok score
  | none => .error notAFloat

/-- Scores and members taken two by two, each score before its member. -/
def scored : List Bytes → Except Value (List (Float × Bytes))
  | spelled :: member :: rest =>
    match score spelled with
    | .error error => .error error
    | .ok read => (scored rest).map fun members => (read, member) :: members
  | _ => .ok []

/-- Reads the scores and members that follow the key.  Nothing is added until
every pair has been read. -/
def members (pairs : List Bytes) : Except Value (List (Float × Bytes)) :=
  if pairs.length % 2 = 0 then scored pairs else .error syntaxError

/-- The reply to a command that puts members into a sorted set. -/
def added : Except WrongType Nat → Value
  | .ok added => .integer added
  | .error _ => wrongType

/-- Adds the members named, answering with how many of them the set had never
held. -/
def add (key : Bytes) (pairs : List Bytes) : Prog Value :=
  match members pairs with
  | .error error => .ret error
  | .ok members => ask (.on key (.zadd members)) added

/-- Reads a place in the order. -/
def index (index : Bytes) : Option Int := (text index).bind parseI64

/-- Lists the members between two places in the order. -/
def range (key start stop : Bytes) : Prog Value :=
  match index start, index stop with
  | some start, some stop =>
    ask (.on key (.zrange start stop)) fun
      | .ok members => .array (members.map Value.bulkString)
      | .error _ => wrongType
  | _, _ => .ret notAnInteger

def rank (key member : Bytes) : Prog Value :=
  ask (.on key (.zrank member)) fun
    | .ok (some rank) => .integer rank
    | .ok none => .null
    | .error _ => wrongType

def remove (key : Bytes) (members : List Bytes) : Prog Value :=
  ask (.on key (.zrem members)) fun
    | .ok removed => .integer removed
    | .error _ => wrongType

def card (key : Bytes) : Prog Value :=
  ask (.on key .zcard) fun
    | .ok members => .integer members
    | .error _ => wrongType

variable [Platform]

/-- Writes a score back out, in the shortest spelling that reads back as the same
number. -/
def written (score : Float) : Bytes := utf8 (Platform.showFloat score)

def scoreOf (key member : Bytes) : Prog Value :=
  ask (.on key (.zscore member)) fun
    | .ok (some score) => .bulkString (written score)
    | .ok none => .null
    | .error _ => wrongType

/-- Handles the commands that work on sorted sets. -/
def run (command : String) (args : List Bytes) : Option (Prog Value) :=
  match command with
  | "ZADD" => some <|
      match args with
      | key :: first :: rest => add key (first :: rest)
      | _ => .ret (wrongArity "zadd")
  | "ZRANK" => some <|
      match args with
      | [key, member] => rank key member
      | _ => .ret (wrongArity "zrank")
  | "ZREM" => some <|
      match args with
      | key :: member :: members => remove key (member :: members)
      | _ => .ret (wrongArity "zrem")
  | "ZSCORE" => some <|
      match args with
      | [key, member] => scoreOf key member
      | _ => .ret (wrongArity "zscore")
  | "ZCARD" => some <|
      match args with
      | [key] => card key
      | _ => .ret (wrongArity "zcard")
  | "ZRANGE" => some <|
      match args with
      | [key, start, stop] => range key start stop
      | _ => .ret (wrongArity "zrange")
  | _ => none

end RedisServer.SortedSets
