import RedisServer.Commands.Speaking
import RedisServer.Commands.Watching
import RedisServer.Commands.Execution

/-!
# A connection and its channels

The channels a client is on are kept twice, with its connection and with the server.  A
command joins no channel its client is on and leaves none it is not on, and what it
leaves the client with is what came of its calls.  That is a protocol whose phase is the
client's own list.
-/

namespace RedisServer

variable {id : Nat} {on : List Bytes} {client : Client}

/-- The phase is the list of channels the connection is on. -/
def subscribing (id : Nat) : Protocol calls (List Bytes) where
  allows on
    | .joined channel listener => listener = id ∧ channel ∉ on
    | .left channel listener => listener = id ∧ channel ∈ on
    | _ => True
  next on call _ :=
    match call with
    | .joined channel _ => on ++ [channel]
    | .left channel _ => on.erase channel
    | _ => on

/-- The channels of a client on this server. -/
def tuned (id : Nat) (on : List Bytes) : Subscriptions := { on, listener := some id }

/-- What has nothing to do with channels leaves the connection on those it is on. -/
theorem subscribing_unaired {α : Type} {program : Prog α} (makes : program.Makes Call.Unaired)
    (id : Nat) (on : List Bytes) :
    program.Keeps (subscribing id) (fun phase _ => phase = on) on := by
  refine Program.Keeps.of_makes ?_ makes rfl
  rintro call unaired phase rfl
  cases call with
  | joined _ _ | left _ _ => exact absurd True.intro unaired
  | _ => exact ⟨True.intro, fun _ => rfl⟩

theorem subscribing_add (id : Nat) (on : List Bytes) (channel : Bytes) :
    ((tuned id on).add channel).Keeps (subscribing id)
      (fun on changed => changed.2 = tuned id on) on := by
  unfold Subscriptions.add
  split
  · rfl
  · exact ⟨⟨rfl, ‹_›⟩, fun _ => rfl⟩

theorem subscribing_remove (id : Nat) (on : List Bytes) (channel : Bytes) :
    ((tuned id on).remove channel).Keeps (subscribing id)
      (fun on changed => changed.2 = tuned id on) on := by
  unfold Subscriptions.remove
  split
  · exact ⟨⟨rfl, ‹_›⟩, fun _ => rfl⟩
  · rfl

theorem subscribing_each {what : String}
    {change : Subscriptions → Bytes → Prog (Nat × Subscriptions)}
    (changes : ∀ on channel, (change (tuned id on) channel).Keeps (subscribing id)
      (fun on changed => changed.2 = tuned id on) on) (on : List Bytes) (replies : List Value)
    (channels : List Bytes) :
    (Pubsub.each what change (tuned id on) replies channels).Keeps (subscribing id)
      (fun on replied => replied.2 = tuned id on) on := by
  induction channels generalizing on replies with
  | nil => rfl
  | cons channel channels ih =>
    refine (changes on channel).bind fun on changed isOn => ?_
    rw [isOn]
    exact ih on _

theorem subscribing_pubsub {name : String} {args : List Bytes}
    {program : Prog (Value × Subscriptions)}
    (found : Pubsub.run name args (tuned id on) = some program) :
    program.Keeps (subscribing id) (fun on replied => replied.2 = tuned id on) on := by
  unfold Pubsub.run at found
  split at found
  · cases found
    split
    · exact ⟨True.intro, fun _ => rfl⟩
    · rfl
  · cases found
    split
    · rfl
    · exact subscribing_each (subscribing_add id) _ _ _
  · cases found
    split
    · unfold Pubsub.givenUp
      split
      · rfl
      · exact subscribing_each (subscribing_remove id) _ _ _
    · exact subscribing_each (subscribing_remove id) _ _ _
  · split at found <;> cases found
    rfl
  · cases found

section

variable [Platform]

/-- What a client of this connection is left with. -/
def LeavesTuned {α : Type} (id : Nat) (on : List Bytes) (replied : α × Client) : Prop :=
  replied.2.subscriptions = tuned id on

theorem runAgainst_subscribing (server : Server) (isTuned : client.subscriptions = tuned id on)
    (command : Command) :
    (runAgainst server client command).Keeps (subscribing id) (LeavesTuned id) on := by
  cases isPubsub : Pubsub.run command.uppercased command.args client.subscriptions with
  | some program =>
    unfold runAgainst
    simp only [isPubsub]
    split
    · exact isTuned
    · rw [isTuned] at isPubsub
      exact (subscribing_pubsub isPubsub).map
  | none =>
    have keeps := subscribing_unaired (@runAgainst_unaired _ server _ _ isPubsub) id on
    refine (keeps.returns (runAgainst_keeps server client ?_ ?_)).mono ?_
    · intro isOn
      rw [isOn] at isPubsub
      cases isPubsub
    · intro isOff
      rw [isOff] at isPubsub
      cases isPubsub
    · rintro phase replied ⟨rfl, kept⟩
      exact kept.trans isTuned

theorem dispatch_subscribing (server : Server) (isTuned : client.subscriptions = tuned id on)
    (command : Command) :
    (dispatch server client command).Keeps (subscribing id) (LeavesTuned id) on := by
  refine (runAgainst_subscribing server isTuned command).bind fun on replied leaves => ?_
  have keeps := subscribing_unaired
    ((afterwards_mute server command replied).mono fun _ => Call.Mute.unaired) id on
  refine (keeps.returns (afterwards_returns server command replied)).mono ?_
  rintro phase result ⟨rfl, rfl | ⟨rfl, -⟩⟩
  · exact leaves
  · exact leaves

theorem execute_subscribing (server : Server) (isTuned : client.subscriptions = tuned id on)
    (replies : List Value) (queued : List Command) :
    (execute server client replies queued).Keeps (subscribing id) (LeavesTuned id) on := by
  induction queued generalizing client on replies with
  | nil => exact isTuned
  | cons command queued ih =>
    exact (dispatch_subscribing server isTuned command).bind fun on replied leaves =>
      ih leaves _

/-- Every command of a connection keeps to its list of channels. -/
theorem run_subscribing (server : Server) (isTuned : client.subscriptions = tuned id on)
    (asked : Value) :
    (run server client asked).Keeps (subscribing id) (LeavesTuned id) on := by
  unfold run
  split
  · exact isTuned
  · unfold runCommand
    split
    · exact isTuned
    split
    · exact isTuned
    split
    · exact isTuned
    · refine Program.Keeps.map ?_
      unfold carryOut
      split
      · exact dispatch_subscribing server isTuned _
      · rename_i isSteered
        refine (subscribing_unaired ((Transactions.steer_watches isSteered).mono
          fun _ watches => (Call.Watches.mute watches).unaired) id on).bind ?_
        rintro phase ⟨reply | queued, transaction⟩ rfl
        · exact isTuned
        · have stillTuned : { client with transaction }.subscriptions = tuned id phase := isTuned
          exact execute_subscribing server stillTuned [] queued

end

end RedisServer
