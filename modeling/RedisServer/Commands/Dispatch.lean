import RedisServer.Commands.Lists
import RedisServer.Commands.Streams
import RedisServer.Commands.Geo
import RedisServer.Commands.Administration
import RedisServer.Commands.Pubsub

/-!
# Transactions, and how a command is dispatched

Inside a transaction a command is only written down; `EXEC` checks the watched
keys and runs what was queued, one command after the other.  A command that
changed the store is recorded and then passed on to the replicas, in the words
that would bring another server to the same state.
-/

namespace RedisServer

namespace Transactions

def nestedMulti : Value := .error "ERR MULTI calls can not be nested"

def watchInsideMulti : Value := .error "ERR WATCH inside MULTI is not allowed"

def execWithoutMulti : Value := .error "ERR EXEC without MULTI"

def discardWithoutMulti : Value := .error "ERR DISCARD without MULTI"

/-- Whether a command steers a transaction rather than takes part in one. -/
def steersATransaction (command : String) : Bool :=
  command ∈ ["MULTI", "EXEC", "DISCARD", "WATCH"]

/-- What the dispatcher is to do with a transaction command. -/
inductive Steered where
  | reply (value : Value)
  /-- The commands `EXEC` had waiting, to be run in order. -/
  | execute (queued : List Command)

/-- Takes note of the version a key held.  Watching a key a second time keeps the
first reading. -/
def watch (watched : Map Bytes (Option Nat)) (reading : Bytes × Option Nat) :
    Map Bytes (Option Nat) :=
  if reading.1 ∈ watched then watched else watched.insert reading.1 reading.2

/-- Handles the commands that steer a transaction. -/
def steer (command : Command) (transaction : Transaction) :
    Option (Prog (Steered × Transaction)) :=
  match command.uppercased with
  | "MULTI" => some <| .ret <|
      match command.args, transaction.queued with
      | [], some _ => (.reply nestedMulti, transaction)
      | [], none => (.reply ok, { transaction with queued := some [] })
      | _, _ => (.reply (wrongArity "multi"), transaction)
  | "EXEC" => some <|
      match command.args, transaction.queued with
      | [], some queued =>
        -- the watch ends with the transaction either way
        .call (.store (.unchanged transaction.watched.toList)) fun unchanged =>
          .ret (if unchanged then .execute queued else .reply .nullArray, {})
      | [], none => .ret (.reply execWithoutMulti, transaction)
      | _, _ => .ret (.reply (wrongArity "exec"), transaction)
  | "WATCH" => some <|
      match command.args, transaction.queued with
      | [], _ => .ret (.reply (wrongArity "watch"), transaction)
      | _, some _ => .ret (.reply watchInsideMulti, transaction)
      | keys, none =>
        .call (.store (.versions keys)) fun versions =>
          .ret (.reply ok,
            { transaction with
              watched := (keys.zip versions).foldl watch transaction.watched })
  | "DISCARD" => some <| .ret <|
      match command.args, transaction.queued with
      | [], some _ => (.reply ok, {})
      | [], none => (.reply discardWithoutMulti, transaction)
      | _, _ => (.reply (wrongArity "discard"), transaction)
  | _ => none

/-- Handles the transaction commands that are queued like any other. -/
def run (command : String) (args : List Bytes) (transaction : Transaction) :
    Option (Value × Transaction) :=
  match command with
  | "UNWATCH" => some <|
      match args with
      | [] => (ok, { transaction with watched := ∅ })
      | _ => (wrongArity "unwatch", transaction)
  | _ => none

end Transactions

namespace Client

/-- A reply that leaves the client as it was. -/
def kept (client : Client) (reply : Prog Value) : Prog (Value × Client) :=
  (fun value => (value, client)) <$> reply

end Client

/-- The commands passed on and recorded as they came in. -/
def recordedAsSent (command : String) : Bool :=
  command ∈ ["SET", "INCR", "RPUSH", "LPUSH", "LPOP", "XADD", "ZADD", "ZREM", "GEOADD"]

/-- What a command that changed the store leaves for the replicas and the record:
the words that would bring another server to the same state. -/
def writtenDown (command : Command) (reply : Value) : Option Value :=
  if recordedAsSent command.uppercased then some command.asSent
  else if command.uppercased = "BLPOP" then
    -- naming an element is the only sign one went
    match command.args, reply with
    | key :: _, .array _ => some (asCommand [utf8 "LPOP", key])
    | _, _ => none
  else none

/-- Replicas are told only by the server the change was asked of. -/
def passOn (server : Server) (written : Value) (replied : Value × Client) :
    Prog (Value × Client) :=
  if server.config.replicaof.isNone then
    .call (.send written) fun bytes => .call (.advance bytes) fun _ => .ret replied
  else .ret replied

/-- Records a write before its reply goes out, and then passes it on. -/
def noteDown (server : Server) (written : Value) (replied : Value × Client) :
    Prog (Value × Client) :=
  if server.recording then
    .call (.record written) fun recorded =>
      if recorded then passOn server written replied else .ret (unrecorded, replied.2)
  else passOn server written replied

/-- What is left to do once a command has been run. -/
def afterwards (server : Server) (command : Command) (replied : Value × Client) :
    Prog (Value × Client) :=
  if replied.1.isError then .ret replied
  else
    match writtenDown command replied.1 with
    | none => .ret replied
    | some written => noteDown server written replied

/-- A replica that has been handed the dataset is no longer a client. -/
def answer (command : Command) (replied : Value × Client) : Answer × Client :=
  (if command.uppercased = "PSYNC" ∧ !replied.1.isError then .replica replied.1
    else .reply replied.1, replied.2)

section

variable [Platform]

/-- The commands on what the store holds. -/
def runOnStore (server : Server) (command : String) (args : List Bytes) :
    Option (Prog Value) :=
  Strings.run command args <|> Lists.run command args <|> Streams.run server command args <|>
    SortedSets.run command args <|> Geo.run command args <|> Keys.run command args

/-- The commands on the server itself that leave the client alone. -/
def runOnServer (server : Server) (command : String) (args : List Bytes) :
    Option (Prog Value) :=
  Info.run server command args <|> Settings.run server command args <|>
    Replication.run server command args

/-- Hands the command to the module that knows it. -/
def runAgainst (server : Server) (client : Client) (command : Command) :
    Prog (Value × Client) :=
  let name := command.uppercased
  let args := command.args
  match Transactions.run name args client.transaction with
  | some (reply, transaction) => .ret (reply, { client with transaction })
  | none =>
  match Pubsub.run name args client.subscriptions with
  | some replied =>
    (fun (reply, subscriptions) => (reply, { client with subscriptions })) <$> replied
  | none =>
  match runOnStore server name args with
  | some reply => client.kept reply
  | none =>
  match Acl.run name args client.authenticated with
  | some replied =>
    (fun (reply, authenticated) => (reply, { client with authenticated })) <$> replied
  | none =>
  match runOnServer server name args with
  | some reply => client.kept reply
  | none => .ret (unknownCommand command.name, client)

/-- Runs one command, against the store or against the connection's own state. -/
def dispatch (server : Server) (client : Client) (command : Command) :
    Prog (Value × Client) :=
  (runAgainst server client command).bind (afterwards server command)

/-- Runs the commands a transaction had queued, gathering their replies. -/
def execute (server : Server) (client : Client) (replies : List Value) :
    List Command → Prog (Value × Client)
  | [] => .ret (.array replies, client)
  | command :: queued =>
    (dispatch server client command).bind fun replied =>
      execute server replied.2 (replies ++ [replied.1]) queued

/-- Steers the transaction, or runs the command. -/
def carryOut (server : Server) (client : Client) (command : Command) :
    Prog (Value × Client) :=
  match Transactions.steer command client.transaction with
  | none => dispatch server client command
  | some steered =>
    steered.bind fun
      | (.reply reply, transaction) => .ret (reply, { client with transaction })
      | (.execute queued, transaction) =>
        execute server { client with transaction } [] queued

/-- Runs one command a client was able to name. -/
def runCommand (server : Server) (client : Client) (command : Command) :
    Prog (Answer × Client) :=
  if !client.authenticated && !Acl.allowedWhileOut command.uppercased then
    .ret (.reply Acl.needsAuthenticating, client)
  else if client.subscriptions.listening &&
      !Pubsub.allowedWhileListening command.uppercased then
    .ret (.reply (Pubsub.outOfContext command.uppercased), client)
  else
    match Transactions.steersATransaction command.uppercased, client.transaction.queued with
    | false, some queued =>
      -- inside a transaction a command is only written down
      .ret (.reply (.simpleString "QUEUED"),
        { client with
          transaction := { client.transaction with queued := some (queued ++ [command]) } })
    | _, _ => answer command <$> carryOut server client command

/-- Runs one client command and produces the reply to send back. -/
def run (server : Server) (client : Client) (value : Value) : Prog (Answer × Client) :=
  match Command.parse value with
  | .error reply => .ret (.reply reply, client)
  | .ok command => runCommand server client command

end

end RedisServer
