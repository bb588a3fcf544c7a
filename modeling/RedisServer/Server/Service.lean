import RedisServer.Commands.Dispatch

/-!
# A server and its connections

Each connection has a client of its own and serves one command at a time.  This
module keeps the books: who is connected, what each client has been sent, and what
goes when a connection ends.  A sequential run finishes each command before the
next one starts.
-/

namespace RedisServer

/-- One connection: its client, and the command it is in the middle of. -/
structure Connection where
  client : Client
  task : Option (Prog (Answer × Client)) := none

/-- A server with those connected to it. -/
structure Service where
  world : World := {}
  connections : Map Nat Connection := ∅
  /-- What has been sent back, and on which connection. -/
  sent : List (Nat × Value) := []

namespace World

/-- A connection that has ended listens to nothing, and what is handed to it
reaches nobody. -/
def forget (world : World) (id : Nat) : World :=
  { world with
    mail := world.mail.erase id
    channels := world.channels.filterMap fun _ listeners =>
      let left := listeners.filter fun listener => listener ≠ id
      if left.isEmpty then none else some left }

end World

namespace Service

/-- A connection just made.  It is let in from the start if no password is wanted. -/
def connect (service : Service) (id : Nat) : Service :=
  if id ∈ service.connections then service
  else
    { service with
      world := { service.world with mail := service.world.mail.insert id [] }
      connections := service.connections.insert id
        { client :=
            { subscriptions := { listener := some id }
              authenticated := service.world.passwords.isEmpty } } }

/-- A connection that has ended. -/
def close (service : Service) (id : Nat) : Service :=
  { service with
    world := service.world.forget id
    connections := service.connections.erase id }

/-- What a command leaves its connection with.  One that turned into a replica's
carries what the master is told to change and sends no more commands. -/
def answered (service : Service) (id : Nat) (answer : Answer) (client : Client) : Service :=
  match answer with
  | .reply value =>
    { service with
      connections := service.connections.insert id { client }
      sent := service.sent ++ [(id, value)] }
  | .replica value =>
    { service with
      world := service.world.takeOn id
      connections := service.connections.erase id
      sent := service.sent ++ [(id, value)] }

end Service

/-! ## Sequential runs -/

/-- What happens to a server that does one thing at a time. -/
inductive Event where
  | connect (id : Nat)
  | hangUp (id : Nat)
  | command (id : Nat) (value : Value)

namespace Service

variable [Platform]

/-- One event.  A command that panics takes its connection with it.  `none` is a
command that waits for ever, after which nothing else happens; the count is of the
decisions of the environment that have been used up. -/
def step (server : Server) (supply : Nat → Env) (here : Nat × Service) :
    Event → Option (Nat × Service)
  | .connect id => some (here.1, here.2.connect id)
  | .hangUp id => some (here.1, here.2.close id)
  | .command id value =>
    match here.2.connections[id]? with
    | none => some here
    | some connection =>
      match (run server connection.client value).exec machine supply here.1
          here.2.world with
      | .stuck => none
      | .panicked (count, world) => some (count, { here.2 with world }.close id)
      | .done (count, world) (answer, client) =>
        some (count, { here.2 with world }.answered id answer client)

/-- A run of events, one after the other. -/
def runAll (server : Server) (supply : Nat → Env) :
    Nat × Service → List Event → Option (Nat × Service)
  | here, [] => some here
  | here, event :: events => (step server supply here event).bind fun next =>
    runAll server supply next events

end Service

end RedisServer
