import RedisServer.Commands.Strings

/-!
# Commands that listen and publish

The channels a client listens on belong to its connection, and what everyone
listens on is shared.  A client without a listener is not on this server at all:
its channels are kept in a tally of its own that nobody publishes to.
-/

namespace RedisServer

namespace Subscriptions

/-- Whether this client is listening on anything at all. -/
def listening (subscriptions : Subscriptions) : Bool := !subscriptions.on.isEmpty

/-- Tells the shared tally something about this client's listener. -/
def tell (subscriptions : Subscriptions) (call : Nat → Call)
    (next : Prog (Nat × Subscriptions)) : Prog (Nat × Subscriptions) :=
  match subscriptions.listener with
  | some listener => .call (call listener) fun _ => next
  | none => next

/-- Takes on a channel and says how many this client is then listening on. -/
def add (subscriptions : Subscriptions) (channel : Bytes) : Prog (Nat × Subscriptions) :=
  if channel ∈ subscriptions.on then .ret (subscriptions.on.length, subscriptions)
  else
    let on := subscriptions.on ++ [channel]
    subscriptions.tell (.joined channel) (.ret (on.length, { subscriptions with on }))

/-- Gives up a channel and says how many this client is left listening on. -/
def remove (subscriptions : Subscriptions) (channel : Bytes) : Prog (Nat × Subscriptions) :=
  if channel ∈ subscriptions.on then
    let on := subscriptions.on.erase channel
    subscriptions.tell (.left channel) (.ret (on.length, { subscriptions with on }))
  else .ret (subscriptions.on.length, subscriptions)

end Subscriptions

namespace Pubsub

/-- The commands a client may still use once it is listening on a channel. -/
def allowedWhileListening (command : String) : Bool :=
  command ∈ ["SUBSCRIBE", "UNSUBSCRIBE", "PSUBSCRIBE", "PUNSUBSCRIBE", "PING", "QUIT",
    "RESET"]

/-- A message as a listening client is to hear it. -/
def delivery (channel message : Bytes) : Bytes :=
  (Value.array [bulk "message", .bulkString channel, .bulkString message]).encode

def confirmNaming (what : String) (channel : Value) (count : Nat) : Value :=
  .array [bulk what, channel, .integer count]

/-- What a client is told when it has been put on a channel or taken off one. -/
def confirm (what : String) (channel : Bytes) (count : Nat) : Value :=
  confirmNaming what (.bulkString channel) count

/-- Puts a client on channels or takes it off them, confirming each in turn. -/
def each (what : String) (change : Subscriptions → Bytes → Prog (Nat × Subscriptions))
    (subscriptions : Subscriptions) (replies : List Value) :
    List Bytes → Prog (Value × Subscriptions)
  | [] => .ret (.sequence replies, subscriptions)
  | channel :: channels =>
    (change subscriptions channel).bind fun changed =>
      each what change changed.2 (replies ++ [confirm what channel changed.1]) channels

/-- Gives up every channel a client is listening on. -/
def givenUp (subscriptions : Subscriptions) : Prog (Value × Subscriptions) :=
  if subscriptions.on.isEmpty then
    .ret (confirmNaming "unsubscribe" .null 0, subscriptions)
  else each "unsubscribe" Subscriptions.remove subscriptions [] subscriptions.on

variable [Platform]

/-- What a listening client is told when it asks for something it may not have
while it listens. -/
def outOfContext (command : String) : Value :=
  .error ("ERR Can't execute '" ++ Platform.toLowercase command ++
    "': only (P|S)SUBSCRIBE / (P|S)UNSUBSCRIBE / PING / QUIT / RESET are allowed in " ++
    "this context")

omit [Platform]

/-- Handles the commands a client uses to listen for what others have to say, and
to say something itself. -/
def run (command : String) (args : List Bytes) (subscriptions : Subscriptions) :
    Option (Prog (Value × Subscriptions)) :=
  match command with
  | "PUBLISH" => some <|
      match args with
      | [channel, message] =>
        .call (.publish channel (delivery channel message)) fun reached =>
          .ret (.integer reached, subscriptions)
      | _ => .ret (wrongArity "publish", subscriptions)
  | "SUBSCRIBE" => some <|
      match args with
      | [] => .ret (wrongArity "subscribe", subscriptions)
      | channels => each "subscribe" Subscriptions.add subscriptions [] channels
  | "UNSUBSCRIBE" => some <|
      match args with
      | [] => givenUp subscriptions
      | channels => each "unsubscribe" Subscriptions.remove subscriptions [] channels
  | "PING" =>
    -- a client that is not listening is answered by the commands on strings
    if subscriptions.listening then
      some (.ret (.array [bulk "pong", .bulkString []], subscriptions))
    else none
  | _ => none

end Pubsub

end RedisServer
