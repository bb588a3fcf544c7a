import RedisServer.Commands.Command
import RedisServer.Glob

/-!
# Commands on strings, and on keys whatever they hold
-/

namespace RedisServer

/-- One method of the store, and the reply its answer is laid out in. -/
def ask (call : StoreCall) (reply : call.Reply → Value) : Prog Value :=
  .call (.store call) fun answer => .ret (reply answer)

namespace Strings

def get (key : Bytes) : Prog Value :=
  ask (.on key .get) fun
    | .ok (some value) => .bulkString value
    | .ok none => .null
    | .error _ => wrongType

def overflow : Value := .error "ERR increment or decrement would overflow"

def increment (key : Bytes) : Prog Value :=
  ask (.on key .increment) fun
    | .ok value => .integer value
    | .error .notAnInteger => notAnInteger
    | .error .overflow => overflow
    | .error .wrongType => wrongType

variable [Platform]

/-- Reads the trailing options of `SET`. -/
def parseExpiry (options : List Bytes) : Except Value (Option Duration) :=
  match options with
  | [] => .ok none
  | [unit, amount] =>
    match (text amount).bind parseU64 with
    | none => .error notAnInteger
    | some amount =>
      match (text unit).map Platform.toUppercase with
      | some "EX" => .ok (some (Duration.ofSeconds amount))
      | some "PX" => .ok (some (Duration.ofMillis amount))
      | _ => .error syntaxError
  | _ => .error syntaxError

def set (key value : Bytes) (options : List Bytes) : Prog Value :=
  match parseExpiry options with
  | .ok expiresIn => ask (.on key (.set value expiresIn)) fun _ => ok
  | .error error => .ret error

/-- Handles the commands that work on plain string values, plus `PING`. -/
def run (command : String) (args : List Bytes) : Option (Prog Value) :=
  match command with
  | "PING" => some (.ret (.simpleString "PONG"))
  | "ECHO" => some <|
      match args with
      | [message] => .ret (.bulkString message)
      | _ => .ret (wrongArity "echo")
  | "SET" => some <|
      match args with
      | key :: value :: options => set key value options
      | _ => .ret (wrongArity "set")
  | "GET" => some <|
      match args with
      | [key] => get key
      | _ => .ret (wrongArity "get")
  | "INCR" => some <|
      match args with
      | [key] => increment key
      | _ => .ret (wrongArity "incr")
  | _ => none

end Strings

namespace Keys

/-- The names Redis reports for each kind of value. -/
def typeName : Kind → String
  | .none => "none"
  | .string => "string"
  | .list => "list"
  | .stream => "stream"
  | .sortedSet => "zset"

/-- Handles the commands that work on a key whatever it holds. -/
def run (command : String) (args : List Bytes) : Option (Prog Value) :=
  match command with
  | "TYPE" => some <|
      match args with
      | [key] => ask (.on key .kind) fun kind => .simpleString (typeName kind)
      | _ => .ret (wrongArity "type")
  | "KEYS" => some <|
      match args with
      | [pattern] =>
        let pattern := Pattern.parse pattern
        ask (.keys fun key => pattern.matches key) fun keys =>
          .array (keys.map Value.bulkString)
      | _ => .ret (wrongArity "keys")
  | _ => none

end Keys

end RedisServer
