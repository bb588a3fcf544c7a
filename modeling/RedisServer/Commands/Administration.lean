import RedisServer.Commands.Strings

/-!
# Commands about the server itself

Who a client is and what it may do (`ACL`, `AUTH`), what the server has to say of
itself (`INFO`), how it was set up (`CONFIG GET`), and what replicas and those who
wait on them ask (`REPLCONF`, `PSYNC`, `WAIT`).
-/

namespace RedisServer

namespace Acl

/-- The user a connection is taken to be. -/
def defaultUser : Bytes := utf8 "default"

/-- The commands a client may use before it has been let in. -/
def allowedWhileOut (command : String) : Bool :=
  command ∈ ["AUTH", "HELLO", "QUIT", "RESET"]

/-- What a client is told when it asks for something before it has been let in. -/
def needsAuthenticating : Value := .error "NOAUTH Authentication required."

def wrongPassword : Value :=
  .error "WRONGPASS invalid username-password pair or user is disabled."

/-- What a client is told of a rule this server cannot follow. -/
def badRule (rule : Bytes) : Value :=
  .error ("ERR Error in ACL SETUSER modifier '" ++ fromUtf8Lossy rule ++ "': Syntax error")

/-- What a client is told when it asks `ACL` something there is no answer for. -/
def unknownAction (action : Bytes) : Value :=
  .error ("ERR Unknown ACL subcommand or wrong number of arguments for '" ++
    fromUtf8Lossy action ++ "'")

/-- Everything there is to say about a user, as pairs of a property and its value. -/
def userNamed (user : Bytes) : Prog Value :=
  if user ≠ defaultUser then .ret .nullArray
  else
    .call .wantsNoPassword fun wantsNone =>
      .call .hashedPasswords fun hashed =>
        .ret (.array
          [bulk "flags", .array (if wantsNone then [bulk "nopass"] else []),
            bulk "passwords", .array (hashed.map bulk)])

/-- Reads rules of the one kind followed, `>password`; the first that is not one
is given back. -/
def passwordsGiven : List Bytes → Except Bytes (List Bytes)
  | [] => .ok []
  | rule :: rules =>
    match rule with
    | 62 :: first :: password =>
      (passwordsGiven rules).map fun passwords => (first :: password) :: passwords
    | _ => .error rule

variable [Platform]

/-- A password as it is kept: its hash, written in lower-case hex. -/
def hashed (password : Bytes) : String :=
  String.ofList ((Platform.sha256 password).flatMap fun byte =>
    [Nat.digitChar (byte.toNat / 16), Nat.digitChar (byte.toNat % 16)])

/-- Takes on the passwords one by one. -/
def addPasswords : List Bytes → Prog Value
  | [] => .ret ok
  | password :: passwords =>
    .call (.addPassword (hashed password)) fun _ => addPasswords passwords

/-- Changes a user by the rules given.  Every rule is looked over before any is
applied. -/
def setUser (user : Bytes) (rules : List Bytes) : Prog Value :=
  if user ≠ defaultUser then .ret (.error "ERR this server has only the 'default' user")
  else
    match passwordsGiven rules with
    | .error rule => .ret (badRule rule)
    | .ok passwords => addPasswords passwords

/-- Checks a password against the user a client says it is.  The flag that comes
back is whether the connection is let in from then on. -/
def authenticate (user password : Bytes) (authenticated : Bool) : Prog (Value × Bool) :=
  if user ≠ defaultUser then .ret (wrongPassword, authenticated)
  else
    .call (.accepts (hashed password)) fun accepted =>
      .ret (if accepted then (ok, true) else (wrongPassword, authenticated))

/-- What is said to a client that gives a password where none is wanted. -/
def noPasswordSet : Value :=
  .error ("ERR Client sent AUTH, but no password is set. " ++
    "Did you mean AUTH <username> <password>?")

/-- Checks a password given without a user, which is taken for the default one's. -/
def alone (password : Bytes) (authenticated : Bool) : Prog (Value × Bool) :=
  .call .wantsNoPassword fun wantsNone =>
    if wantsNone then .ret (noPasswordSet, authenticated)
    else authenticate defaultUser password authenticated

/-- The commands that start with `ACL`, told apart by the word after it. -/
def acl : List Bytes → Prog Value
  | [] => .ret (wrongArity "acl")
  | action :: rest =>
    if eqIgnoreAsciiCase action (utf8 "WHOAMI") then
      match rest with
      | [] => .ret (.bulkString defaultUser)
      | _ => .ret (unknownAction action)
    else if eqIgnoreAsciiCase action (utf8 "GETUSER") then
      match rest with
      | [user] => userNamed user
      | _ => .ret (unknownAction action)
    else if eqIgnoreAsciiCase action (utf8 "SETUSER") then
      match rest with
      | user :: rule :: rules => setUser user (rule :: rules)
      | _ => .ret (unknownAction action)
    else .ret (unknownAction action)

/-- Handles the commands that ask who a client is and what it may do. -/
def run (command : String) (args : List Bytes) (authenticated : Bool) :
    Option (Prog (Value × Bool)) :=
  match command with
  | "ACL" => some ((fun reply => (reply, authenticated)) <$> acl args)
  | "AUTH" => some <|
      match args with
      | [password] => alone password authenticated
      | [user, password] => authenticate user password authenticated
      | _ => .ret (wrongArity "auth", authenticated)
  | _ => none

end Acl

namespace Info

/-- The lines of the one section there is. -/
def replicationSection (server : Server) (offset : Nat) : String :=
  let role := if server.config.replicaof.isSome then "slave" else "master"
  "# Replication\r\n" ++ "role:" ++ role ++ "\r\n" ++
    "master_replid:" ++ server.replicationId ++ "\r\n" ++
    "master_repl_offset:" ++ toString offset ++ "\r\n"

/-- Gathers the sections asked for.  One the server does not have contributes
nothing. -/
def report (server : Server) (written : String) : List String → Prog Value
  | [] => .ret (bulk written)
  | wanted :: sections =>
    if eqIgnoreAsciiCase (utf8 wanted) (utf8 "replication") then
      .call .offset fun offset =>
        report server (written ++ replicationSection server offset) sections
    else report server written sections

/-- Handles the commands that ask the server about itself. -/
def run (server : Server) (command : String) (args : List Bytes) : Option (Prog Value) :=
  match command with
  | "INFO" => some <|
      match args with
      | [] => report server "" ["replication"]
      | sections => report server "" (sections.filterMap text)
  | _ => none

end Info

namespace Config

def yesOrNo (setting : Bool) : String := if setting then "yes" else "no"

/-- A setting under the name `CONFIG GET` knows it by, along with that name. -/
def setting (config : Config) (name : String) : Option (String × String) :=
  match name.map Char.toLower with
  | "dir" => some ("dir", config.dir)
  | "dbfilename" => some ("dbfilename", config.dbfilename)
  | "appendonly" => some ("appendonly", yesOrNo config.appendonly)
  | "appenddirname" => some ("appenddirname", config.appenddirname)
  | "appendfilename" => some ("appendfilename", config.appendfilename)
  | "appendfsync" => some ("appendfsync", config.appendfsync)
  | _ => none

end Config

namespace Settings

/-- Looks up the settings asked for, as pairs of a name and its value. -/
def settings (names : List Bytes) (server : Server) : List Value :=
  names.flatMap fun name =>
    match (text name).bind server.config.setting with
    | some (name, value) => [bulk name, bulk value]
    | none => []

def unknownAction (action : Bytes) : Value :=
  .error ("ERR Unknown CONFIG subcommand or wrong number of arguments for '" ++
    fromUtf8Lossy action ++ "'")

/-- Handles the commands that ask after how the server was set up. -/
def run (server : Server) (command : String) (args : List Bytes) : Option (Prog Value) :=
  match command with
  | "CONFIG" => some <| .ret <|
      match args with
      | [] => wrongArity "config"
      | action :: names =>
        if eqIgnoreAsciiCase action (utf8 "GET") then
          match names with
          | [] => wrongArity "config|get"
          | names => .array (settings names server)
        else unknownAction action
  | _ => none

end Settings

namespace Replication

/-- A dataset holding nothing, in the format Redis saves its data in. -/
def emptyDataset : Bytes := utf8 "REDIS0011" ++ 255 :: List.replicate 8 0

/-- Reads an argument as a number. -/
def number (argument : Bytes) : Option Int := (text argument).bind parseI64

def negativeTimeout : Value := .error "ERR timeout is negative"

/-- Counts the replicas that have got so far, again each time word arrives from
one of them.  As with a blocking read, `rounds` bounds a loop that has no bound. -/
def waitLoop (target : Nat) (wanted : Int) (mayTimeOut : Bool) : Nat → Prog Nat
  | 0 => .call .never Empty.elim
  | rounds + 1 =>
    .call .stirrings fun since =>
      .call (.caughtUpTo target) fun caughtUp =>
        if wanted ≤ caughtUp then .ret caughtUp
        else
          .call (.stirred since mayTimeOut) fun stirred =>
            if stirred then waitLoop target wanted mayTimeOut rounds
            else .call (.caughtUpTo target) .ret

/-- Waits for so many replicas to have taken in everything passed on so far,
giving up after so many milliseconds; none at all is however long it takes. -/
def wait (server : Server) (wanted : Int) (timeout : Nat) : Prog Nat :=
  .call .offset fun target =>
    if target = 0 then .call .count .ret
    else
      .call (.send (asCommand [utf8 "REPLCONF", utf8 "GETACK", utf8 "*"])) fun asked =>
        .call (.advance asked) fun _ =>
          if timeout = 0 then waitLoop target wanted false (server.rounds + 1)
          else
            .call .now fun now =>
              match instantAdd now (Duration.ofMillis timeout) with
              | some _ => waitLoop target wanted true (server.rounds + 1)
              | none => .call .overflow Empty.elim

/-- Handles the commands replicas send their master. -/
def run (server : Server) (command : String) (args : List Bytes) : Option (Prog Value) :=
  match command with
  | "REPLCONF" => some (.ret (if args.length % 2 = 0 then ok else wrongArity "replconf"))
  | "PSYNC" => some <|
      match args with
      | [_history, _offset] =>
        .call .offset fun offset =>
          .ret (.sequence
            [.simpleString ("FULLRESYNC " ++ server.replicationId ++ " " ++ toString offset),
              .file emptyDataset])
      | _ => .ret (wrongArity "psync")
  | "WAIT" => some <|
      match args with
      | [replicas, timeout] =>
        match number replicas, number timeout with
        | some wanted, some timeout =>
          if timeout < 0 then .ret negativeTimeout
          else (fun caughtUp : Nat => .integer caughtUp) <$> wait server wanted timeout.toNat
        | _, _ => .ret notAnInteger
      | _ => .ret (wrongArity "wait")
  | _ => none

end Replication

end RedisServer
