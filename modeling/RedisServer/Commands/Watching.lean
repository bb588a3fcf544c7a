import RedisServer.Commands.Passing

/-!
# What a command has to do with a watch

A connection's watch begins with `WATCH`, and ends with the check `EXEC` makes or with
a `DISCARD` or `UNWATCH` that goes through.  What a command watches from one call to
the next is a protocol, and so is that it asks the store nothing improper.
-/

namespace RedisServer

/-! ## Protocols about the store alone -/

/-- A protocol that only the store has a part in. -/
theorem Serves.of_store {Phase : Type} {protocol : Protocol calls Phase} {rest : Phase → Prop}
    (store : ∀ call, (Call.store call).Apart → protocol.Rests rest (.store call))
    (other : ∀ call, (∀ asked, call ≠ .store asked) → protocol.Rests rest call) :
    Serves protocol rest where
  apart call apart := by
    cases call with
    | store call => exact store call apart
    | _ => exact other _ nofun
  record words := other _ nofun
  passes words phase resting := by
    obtain ⟨allows, next⟩ := other (.send (asCommand words)) nofun phase resting
    exact ⟨allows, fun bytes =>
      ⟨(other (.advance bytes) nofun _ (next bytes)).1,
        (other (.advance bytes) nofun _ (next bytes)).2 ()⟩⟩
  waits server wanted timeout phase resting := by
    refine Program.Keeps.of_makes (fun call waits => other call ?_)
      (Replication.wait_waits server wanted timeout) resting
    rintro asked rfl
    exact waits

/-- The store is asked nothing improper. -/
def properly : Protocol calls Unit where
  allows _
    | .store call => call.Proper
    | _ => True
  next _ _ _ := ()

theorem properly_suits : Suits properly fun _ => True where
  toServes := by
    refine .of_store (fun call apart _ _ => ⟨?_, fun _ => True.intro⟩) fun call notStore _ _ =>
      ⟨?_, fun _ => True.intro⟩
    · cases call with
      | on key op => exact apart
      | _ => exact True.intro
    · cases call with
      | store call => exact absurd rfl (notStore call)
      | _ => exact True.intro
  watches call watches _ _ := by
    refine ⟨?_, fun _ => True.intro⟩
    cases call with
    | store call =>
      cases call with
      | on key op => exact watches.elim
      | _ => exact True.intro
    | _ => exact True.intro

/-! ## The watch -/

/-- The phase is what the connection watches, and that is what is checked. -/
def watching : Protocol calls (Map Bytes (Option Nat)) where
  allows watched
    | .store (.unchanged checked) => checked = watched.toList
    | _ => True
  next watched call reply :=
    match call, reply with
    | .store (.versions keys), versions => (keys.zip versions).foldl Transactions.watch watched
    | .store (.unchanged _), _ => ∅
    | _, _ => watched

theorem watching_serves (watched : Map Bytes (Option Nat)) :
    Serves watching fun phase => phase = watched := by
  refine .of_store ?_ ?_
  · rintro call apart phase rfl
    cases call with
    | versions _ | unchanged _ => exact apart.elim
    | _ => exact ⟨True.intro, fun _ => rfl⟩
  · rintro call notStore phase rfl
    cases call with
    | store call => exact absurd rfl (notStore call)
    | _ => exact ⟨True.intro, fun _ => rfl⟩

/-- Whether a command goes through in a word. -/
def Answer.isOk : Answer → Bool
  | .reply (.simpleString text) => text = "OK"
  | _ => false

section

variable [Platform]

/-- Whether a command that was answered so gave up its connection's watch. -/
def givesUpWatch (asked : Value) (answer : Answer) : Bool :=
  asksFor ["DISCARD", "UNWATCH"] asked && answer.isOk

/-- What a command leaves its connection watching. -/
def LeavesWatching (asked : Value) (phase : Map Bytes (Option Nat))
    (answered : Answer × Client) : Prop :=
  answered.2.transaction.watched = if givesUpWatch asked answered.1 then ∅ else phase

/-- A command that is dispatched leaves the watch alone, unless it is `UNWATCH`. -/
theorem runAgainst_watched {command : Command} (notUnwatch : command.uppercased ≠ "UNWATCH")
    (server : Server) (client : Client) :
    (runAgainst server client command).Returns fun replied =>
      replied.2.transaction = client.transaction := by
  have unsteered : Transactions.run command.uppercased command.args client.transaction =
      none := by
    unfold Transactions.run
    split
    · exact absurd ‹_› notUnwatch
    · rfl
  unfold runAgainst
  simp only [unsteered]
  split
  · exact .map (.of_forall (fun _ => rfl) _)
  split
  · exact .map (.of_forall (fun _ => rfl) _)
  split
  · exact .map (.of_forall (fun _ => rfl) _)
  split
  · exact .map (.of_forall (fun _ => rfl) _)
  · rfl

theorem dispatch_watched {command : Command} (notUnwatch : command.uppercased ≠ "UNWATCH")
    (server : Server) (client : Client) :
    (dispatch server client command).Returns fun replied =>
      replied.2.transaction = client.transaction := by
  refine (runAgainst_watched notUnwatch server client).bind fun replied kept => ?_
  refine (afterwards_returns server command replied).mono fun result came => ?_
  rcases came with rfl | ⟨rfl, -⟩
  · exact kept
  · exact kept

/-- What `UNWATCH` comes to. -/
theorem dispatch_unwatch {command : Command} (isUnwatch : command.uppercased = "UNWATCH")
    (server : Server) (client : Client) :
    dispatch server client command = .ret (
      if command.args = [] then
        (ok, { client with transaction := { client.transaction with watched := ∅ } })
      else (wrongArity "unwatch", client)) := by
  obtain ⟨uppercased, name, args⟩ := command
  simp only at isUnwatch
  subst isUnwatch
  cases args with
  | nil => rfl
  | cons argument rest => rfl

/-- What watches nothing goes on watching nothing while a queue is run. -/
theorem execute_unwatched (server : Server) {client : Client} (replies : List Value)
    (queued : List Command) (unwatched : client.transaction.watched = ∅) :
    (execute server client replies queued).Returns fun replied =>
      replied.2.transaction.watched = ∅ := by
  induction queued generalizing client replies with
  | nil => exact unwatched
  | cons command queued ih =>
    by_cases isUnwatch : command.uppercased = "UNWATCH"
    · unfold execute
      rw [dispatch_unwatch isUnwatch]
      refine ih _ ?_
      split
      · rfl
      · exact unwatched
    · refine (dispatch_watched isUnwatch server client).bind fun replied kept => ih _ ?_
      rw [kept]
      exact unwatched

/-- What a command leaves its connection watching, by the reply. -/
def Command.leaves (command : Command) (phase : Map Bytes (Option Nat))
    (replied : Value × Client) : Prop :=
  replied.2.transaction.watched =
    if command.uppercased ∈ ["DISCARD", "UNWATCH"] ∧ (Answer.reply replied.1).isOk then ∅
    else phase

omit [Platform] in
theorem Command.leaves_of_not_mem {command : Command}
    (keeps : command.uppercased ∉ ["DISCARD", "UNWATCH"]) (phase : Map Bytes (Option Nat))
    (replied : Value × Client) :
    command.leaves phase replied ↔ replied.2.transaction.watched = phase := by
  simp [leaves, keeps]

omit [Platform] in
theorem Command.leaves_of_isError {reply : Value} (isError : reply.isError) (command : Command)
    (client : Client) : command.leaves client.transaction.watched (reply, client) := by
  cases reply with
  | error text => simp [leaves, Answer.isOk]
  | _ => cases isError

theorem dispatch_watching {command : Command} (notDiscard : command.uppercased ≠ "DISCARD")
    (server : Server) (client : Client) :
    (dispatch server client command).Keeps watching command.leaves
      client.transaction.watched := by
  by_cases isUnwatch : command.uppercased = "UNWATCH"
  · rw [dispatch_unwatch isUnwatch, Program.keeps_ret]
    split
    · simp [Command.leaves, isUnwatch, Answer.isOk, ok]
    · exact Command.leaves_of_isError rfl command client
  · have keeps := ((watching_serves client.transaction.watched).dispatch rfl server client
      command).returns (dispatch_watched isUnwatch server client)
    refine keeps.mono fun phase replied ends => ?_
    rw [Command.leaves_of_not_mem (by simp [notDiscard, isUnwatch]), ends.2, ends.1]

theorem carryOut_watching (server : Server) (client : Client) (command : Command) :
    (carryOut server client command).Keeps watching command.leaves
      client.transaction.watched := by
  unfold carryOut Transactions.steer
  split
  · rename_i unsteered
    refine dispatch_watching (fun isDiscard => ?_) server client
    simp [isDiscard] at unsteered
  · rename_i isSteered
    split at isSteered
    · rename_i isMulti
      have keeps : command.uppercased ∉ ["DISCARD", "UNWATCH"] := by simp [isMulti]
      cases isSteered
      split <;> exact (Command.leaves_of_not_mem keeps _ _).mpr rfl
    · rename_i isExec
      have keeps : command.uppercased ∉ ["DISCARD", "UNWATCH"] := by simp [isExec]
      cases isSteered
      split
      · rename_i queued noArgs isQueued
        refine ⟨rfl, fun unchanged => ?_⟩
        cases unchanged with
        | false => exact (Command.leaves_of_not_mem keeps _ _).mpr rfl
        | true =>
          have executed := ((watching_serves ∅).execute rfl server
            { client with transaction := {} } [] queued).returns
              (execute_unwatched server [] queued rfl)
          refine executed.mono fun phase replied ⟨isPhase, unwatched⟩ => ?_
          rw [Command.leaves_of_not_mem keeps, unwatched, isPhase]
      · exact (Command.leaves_of_not_mem keeps _ _).mpr rfl
      · exact (Command.leaves_of_not_mem keeps _ _).mpr rfl
    · rename_i isWatch
      have keeps : command.uppercased ∉ ["DISCARD", "UNWATCH"] := by simp [isWatch]
      cases isSteered
      split
      · exact (Command.leaves_of_not_mem keeps _ _).mpr rfl
      · exact (Command.leaves_of_not_mem keeps _ _).mpr rfl
      · exact ⟨True.intro, fun versions => (Command.leaves_of_not_mem keeps _ _).mpr rfl⟩
    · rename_i isDiscard
      cases isSteered
      split
      · have gone : command.leaves client.transaction.watched
            (ok, { client with transaction := {} }) := by
          simp [Command.leaves, isDiscard, Answer.isOk, ok]
        exact gone
      · exact Command.leaves_of_isError rfl command client
      · exact Command.leaves_of_isError rfl command client
    · cases isSteered

/-- Every command checks what its connection watches, and leaves it watching what
`LeavesWatching` says. -/
theorem run_watching (server : Server) (client : Client) (asked : Value) :
    (run server client asked).Keeps watching (LeavesWatching asked)
      client.transaction.watched := by
  unfold run
  cases parsed : Command.parse asked with
  | error reply => simp [LeavesWatching, givesUpWatch, asksFor, parsed]
  | ok command =>
    dsimp only
    unfold runCommand
    split
    · simp [LeavesWatching, givesUpWatch, Answer.isOk, Acl.needsAuthenticating]
    · split
      · simp [LeavesWatching, givesUpWatch, Answer.isOk, Pubsub.outOfContext]
      · split
        · simp [LeavesWatching, givesUpWatch, Answer.isOk]
        · refine Program.Keeps.map ((carryOut_watching server client command).mono ?_)
          intro phase replied leaves
          have sameAnswer : command.uppercased ∈ ["DISCARD", "UNWATCH"] →
              (answer command replied).1 = .reply replied.1 := by
            intro given
            have notPsync : command.uppercased ≠ "PSYNC" := by
              rintro isPsync
              simp [isPsync] at given
            simp [answer, notPsync]
          simp only [LeavesWatching, givesUpWatch, asksFor, parsed]
          refine leaves.trans ?_
          by_cases given : command.uppercased ∈ ["DISCARD", "UNWATCH"]
          · simp [given, sameAnswer given]
          · simp [given]

end

end RedisServer
