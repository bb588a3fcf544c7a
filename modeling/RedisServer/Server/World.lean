import RedisServer.Lib.Program
import RedisServer.Resp
import RedisServer.Store.Call

/-!
# What the connections of a server share

The store, the log, the replicas, the channels and the passwords are each behind
a lock of their own, and every method called on one of them is one atomic step.
`Call` lists those methods and the moments a command has to wait at; `machine`
carries them out.

What nobody but the environment decides is an `Env`: what the clocks read, how an
append to the log went, and whether a wait that may time out has done so.
-/

namespace RedisServer

/-- Where to find the master a replica follows. -/
structure Master where
  host : String
  port : Nat
  deriving DecidableEq, Repr

/-- How the server was asked to run. -/
structure Config where
  replicaof : Option Master := none
  dir : String := "."
  dbfilename : String := "dump.rdb"
  appendonly : Bool := false
  appenddirname : String := "appendonlydir"
  appendfilename : String := "appendonly.aof"
  appendfsync : String := "everysec"
  deriving DecidableEq, Repr

/-- What is fixed for as long as a server runs: its settings, the id its history
is known by, whether it records its writes, and how many times over a command
that waits may be woken in vain. -/
structure Server where
  config : Config := {}
  replicationId : String := ""
  recording : Bool := true
  rounds : Nat := 0

/-- A replica as its master holds it: the connection it is followed on, what has been
queued for it, how far it says it has got, and whether its connection has ended. -/
structure Replica where
  connection : Nat := 0
  changes : List Bytes := []
  reached : Nat := 0
  closed : Bool := false

/-- What the connections share. -/
structure World where
  store : State := {}
  /-- The bytes of the append-only file. -/
  log : Bytes := []
  replicas : List Replica := []
  /-- How many bytes of commands have been handed to replicas. -/
  offset : Nat := 0
  /-- How often a replica has said how far it has got. -/
  stirrings : Nat := 0
  /-- Who listens on which channel. -/
  channels : Map Bytes (List Nat) := ∅
  /-- What has been handed to each connected client that may listen. -/
  mail : Map Nat (List Bytes) := ∅
  /-- The hashed passwords a client may be let in with. -/
  passwords : List String := []

/-- What the environment decides about one call. -/
structure Env where
  clock : Clock := ⟨0, 0⟩
  /-- `none` is an append that went through, and a number one that failed after
  so many bytes. -/
  append : Option Nat := none
  timesOut : Bool := false

/-- A method called on what is shared, or a moment a command waits at. -/
inductive Call where
  | store (call : StoreCall)
  /-- Waits for an element, for good or until a time-out. -/
  | receive (receiver : Nat) (mayTimeOut : Bool)
  /-- Waits for a stream to grow, and lets go of the waker. -/
  | notified (waker : Nat) (deadline : Option Instant)
  | now
  | record (command : Value)
  | send (command : Value)
  | advance (bytes : Nat)
  | offset
  | count
  | caughtUpTo (offset : Nat)
  /-- Starts listening for word from a replica, before looking. -/
  | stirrings
  /-- Waits for word from a replica since then. -/
  | stirred (since : Nat) (mayTimeOut : Bool)
  | joined (channel : Bytes) (listener : Nat)
  | left (channel : Bytes) (listener : Nat)
  | publish (channel delivery : Bytes)
  | addPassword (hashed : String)
  | hashedPasswords
  | wantsNoPassword
  | accepts (hashed : String)
  /-- Waits for what does not come. -/
  | never
  /-- Ends in an overflow. -/
  | overflow

abbrev Call.Reply : Call → Type
  | .store call => call.Reply
  | .receive _ _ => Option Bytes
  | .notified _ _ => Bool
  | .now => Instant
  | .record _ => Bool
  | .send _ => Nat
  | .advance _ => Unit
  | .offset => Nat
  | .count => Nat
  | .caughtUpTo _ => Nat
  | .stirrings => Nat
  | .stirred _ _ => Bool
  | .joined _ _ => Unit
  | .left _ _ => Unit
  | .publish _ _ => Nat
  | .addPassword _ => Unit
  | .hashedPasswords => List String
  | .wantsNoPassword => Bool
  | .accepts _ => Bool
  | .never => Empty
  | .overflow => Empty

/-- The calls a command is made of. -/
abbrev calls : Signature := ⟨Call, Call.Reply⟩

/-- A command in the middle of being carried out. -/
abbrev Prog (α : Type) := Program calls α

namespace World

/-- The replicas still being followed. -/
def following (world : World) : List Replica :=
  world.replicas.filter fun replica => !replica.closed

/-- Takes on the replica at the other end of a connection. -/
def takeOn (world : World) (connection : Nat) : World :=
  { world with replicas := world.replicas ++ [{ connection }] }

/-- Hands a message to one client, if it is still connected. -/
def deliver (mail : Map Nat (List Bytes)) (delivery : Bytes) (listener : Nat) :
    Map Nat (List Bytes) :=
  match mail[listener]? with
  | some messages => mail.insert listener (messages ++ [delivery])
  | none => mail

/-- Carries out one call. -/
def perform (env : Env) (world : World) : (call : Call) → Outcome World call.Reply
  | .store call =>
    match world.store.perform env.clock call with
    | some (store, reply) => .done { world with store } reply
    | none => .panicked world
  | .receive receiver mayTimeOut =>
    match world.store.oneshots[receiver]? with
    | some (.handed element) => .done world (some element)
    | some .waiting =>
      if mayTimeOut && env.timesOut then
        .done { world with store := world.store.giveUp receiver } none
      else .stuck
    | _ => .done world none
  | .notified waker deadline =>
    let released := { world with store := world.store.release waker }
    if deadline.any fun deadline => deadline < env.clock.now then .done released false
    else if (world.store.wakers[waker]?.map Waker.permit).getD false then
      .done released true
    else if deadline.isSome && env.timesOut then .done released false
    else .stuck
  | .now => .done world env.clock.now
  | .record command =>
    match env.append with
    | none => .done { world with log := world.log ++ command.encode } true
    | some written =>
      .done { world with log := world.log ++ command.encode.take written } false
  | .send command =>
    let following := world.following
    if following.isEmpty then .done { world with replicas := following } 0
    else
      let encoded := command.encode
      .done
        { world with
          replicas := following.map fun replica =>
            { replica with changes := replica.changes ++ [encoded] } }
        encoded.length
  | .advance bytes => .done { world with offset := world.offset + bytes } ()
  | .offset => .done world world.offset
  | .count => .done { world with replicas := world.following } world.following.length
  | .caughtUpTo offset =>
    .done { world with replicas := world.following }
      (world.following.countP fun replica => offset ≤ replica.reached)
  | .stirrings => .done world world.stirrings
  | .stirred since mayTimeOut =>
    if since < world.stirrings then .done world true
    else if mayTimeOut && env.timesOut then .done world false
    else .stuck
  | .joined channel listener =>
    .done
      { world with
        channels := world.channels.insert channel
          (world.channels[channel]?.getD [] ++ [listener]) } ()
  | .left channel listener =>
    match world.channels[channel]? with
    | none => .done world ()
    | some listeners =>
      let listeners := listeners.filter fun other => other ≠ listener
      .done
        { world with
          channels :=
            if listeners.isEmpty then world.channels.erase channel
            else world.channels.insert channel listeners } ()
  | .publish channel delivery =>
    match world.channels[channel]? with
    | none => .done world 0
    | some listeners =>
      let reached := listeners.filter fun listener => world.mail[listener]?.isSome
      .done
        { world with
          mail := reached.foldl (fun mail listener => deliver mail delivery listener)
            world.mail
          channels :=
            if reached.isEmpty then world.channels.erase channel
            else world.channels.insert channel reached }
        reached.length
  | .addPassword hashed =>
    .done
      { world with
        passwords :=
          if world.passwords.contains hashed then world.passwords
          else world.passwords ++ [hashed] } ()
  | .hashedPasswords => .done world world.passwords
  | .wantsNoPassword => .done world world.passwords.isEmpty
  | .accepts hashed => .done world (world.passwords.isEmpty || world.passwords.contains hashed)
  | .never => .stuck
  | .overflow => .panicked world

end World

/-- The server's shared state as a machine. -/
def machine : Machine calls World Env := ⟨World.perform⟩

end RedisServer
