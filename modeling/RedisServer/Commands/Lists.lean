import RedisServer.Commands.Strings

/-!
# Commands on lists
-/

namespace RedisServer.Lists

def push (key : Bytes) (elements : List Bytes) (side : Side) : Prog Value :=
  ask (.on key (.push elements side)) fun
    | .ok length => .integer length
    | .error _ => wrongType

/-- Without a count `LPOP` replies with a single element; with one it replies
with an array. -/
def lpop (key : Bytes) (count : Option Bytes) : Prog Value :=
  match count with
  | none =>
    ask (.on key (.lpop 1)) fun
      | .ok (element :: _) => .bulkString element
      | .ok [] => .null
      | .error _ => wrongType
  | some count =>
    match (text count).bind parseI64 with
    | none => .ret notAnInteger
    | some count =>
      if count < 0 then .ret (.error "ERR value is out of range, must be positive")
      else
        ask (.on key (.lpop count.toNat)) fun
          | .ok taken => .array (taken.map Value.bulkString)
          | .error _ => wrongType

def badTimeout : Value := .error "ERR timeout is not a float or out of range"

/-- Whether a `Duration` can hold so many seconds, which are not negative. -/
def fitsDuration (seconds : Float) : Bool := seconds < 18446744073709551616

/-- Reads a blocking command's timeout, in seconds: whether it may run out at
all, a timeout of zero asking to wait indefinitely. -/
def parseTimeout (timeout : Bytes) : Except Value Bool :=
  match (text timeout).bind parseF64 with
  | none => .error badTimeout
  | some seconds =>
    if seconds < 0 then .error (.error "ERR timeout is negative")
    else if seconds == 0 then .ok false
    else if fitsDuration seconds then .ok true
    else .error badTimeout

/-- The reply names the list an element came from. -/
def popped (key : Bytes) : Option Bytes → Value
  | some element => .array [.bulkString key, .bulkString element]
  | none => .nullArray

/-- Pops the first element of a key, waiting for one to arrive if the list is
empty. -/
def blpop (key timeout : Bytes) : Prog Value :=
  match parseTimeout timeout with
  | .error error => .ret error
  | .ok mayTimeOut =>
    .call (.store (.blpop key)) fun
      | .ok (.ready element) => .ret (popped key (some element))
      | .ok (.waiting receiver) =>
        .call (.receive receiver mayTimeOut) fun element => .ret (popped key element)
      | .error _ => .ret wrongType

def llen (key : Bytes) : Prog Value :=
  ask (.on key .llen) fun
    | .ok length => .integer length
    | .error _ => wrongType

def parseIndex (index : Bytes) : Option Int := (text index).bind parseI64

def lrange (key start stop : Bytes) : Prog Value :=
  match parseIndex start, parseIndex stop with
  | some start, some stop =>
    ask (.on key (.lrange start stop)) fun
      | .ok elements => .array (elements.map Value.bulkString)
      | .error _ => wrongType
  | _, _ => .ret notAnInteger

/-- Handles the commands that work on lists. -/
def run (command : String) (args : List Bytes) : Option (Prog Value) :=
  match command with
  | "RPUSH" => some <|
      match args with
      | key :: element :: elements => push key (element :: elements) .right
      | _ => .ret (wrongArity "rpush")
  | "LPUSH" => some <|
      match args with
      | key :: element :: elements => push key (element :: elements) .left
      | _ => .ret (wrongArity "lpush")
  | "LPOP" => some <|
      match args with
      | [key] => lpop key none
      | [key, count] => lpop key (some count)
      | _ => .ret (wrongArity "lpop")
  | "BLPOP" => some <|
      match args with
      | [key, timeout] => blpop key timeout
      | _ => .ret (wrongArity "blpop")
  | "LLEN" => some <|
      match args with
      | [key] => llen key
      | _ => .ret (wrongArity "llen")
  | "LRANGE" => some <|
      match args with
      | [key, start, stop] => lrange key start stop
      | _ => .ret (wrongArity "lrange")
  | _ => none

end RedisServer.Lists
