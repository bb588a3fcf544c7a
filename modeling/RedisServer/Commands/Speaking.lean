import RedisServer.Commands.Passing

/-!
# The commands that speak

Who listens to what and who is let in is changed by a few commands only: those on
channels, and `ACL`.  Every other command is mute, and so is what is done around a
command: the check of a watch, the record and the passing on.
-/

namespace RedisServer

variable {call : Call} {name : String} {args : List Bytes}

/-- The calls that leave alone who listens and who is let in, and say nothing aloud. -/
def Call.Mute (call : Call) : Prop := ¬ call.Speaks

theorem Call.Quiet.mute (quiet : call.Quiet) : call.Mute := by
  cases call <;> first | exact quiet.elim | exact id

theorem Call.Looks.mute (looks : call.Looks) : call.Mute := looks.quiet.mute

theorem Call.Watches.mute (watches : call.Watches) : call.Mute := by
  cases call <;> first | exact watches.elim | exact id

theorem Writing.mute {program : Prog Value} (writing : Writing program) :
    program.Makes Call.Mute := by
  cases writing with
  | refused isError => exact True.intro
  | asked key op reply writes proper unwritten => exact ⟨id, fun _ => True.intro⟩

theorem blpopProgram_mute (args : List Bytes) : (blpopProgram args).Makes Call.Mute := by
  unfold blpopProgram
  split
  · unfold Lists.blpop
    split
    · exact True.intro
    · refine ⟨id, fun answer => ?_⟩
      rcases answer with _ | _ | receiver <;> simp [Call.Mute, Call.Speaks]
  · exact True.intro

/-- The calls on channels. -/
def Call.Airs : Call → Prop
  | .joined _ _ => True
  | .left _ _ => True
  | .publish _ _ => True
  | _ => False

/-- The calls on who is let in. -/
def Call.LetsIn : Call → Prop
  | .addPassword _ => True
  | .hashedPasswords => True
  | .wantsNoPassword => True
  | .accepts _ => True
  | _ => False

/-- The calls that have nothing to do with channels. -/
def Call.Unaired (call : Call) : Prop := ¬ call.Airs

theorem Subscriptions.add_airs (subscriptions : Subscriptions) (channel : Bytes) :
    (subscriptions.add channel).Makes Call.Airs := by
  unfold Subscriptions.add Subscriptions.tell
  split
  · simp
  · split <;> simp [Call.Airs]

theorem Subscriptions.remove_airs (subscriptions : Subscriptions) (channel : Bytes) :
    (subscriptions.remove channel).Makes Call.Airs := by
  unfold Subscriptions.remove Subscriptions.tell
  split
  · split <;> simp [Call.Airs]
  · simp

/-- The module on channels makes no calls on anything else. -/
theorem Pubsub.run_airs {subscriptions : Subscriptions} {program : Prog (Value × Subscriptions)}
    (found : Pubsub.run name args subscriptions = some program) : program.Makes Call.Airs := by
  unfold Pubsub.run at found
  split at found
  · cases found
    split <;> simp [Call.Airs]
  · cases found
    split
    · simp
    · exact Pubsub.each_makes Subscriptions.add_airs _ _ _
  · cases found
    split
    · unfold Pubsub.givenUp
      split
      · simp
      · exact Pubsub.each_makes Subscriptions.remove_airs _ _ _
    · exact Pubsub.each_makes Subscriptions.remove_airs _ _ _
  · split at found <;> cases found
    simp
  · cases found

section

variable [Platform]

theorem Acl.alone_looks (password : Bytes) (authenticated : Bool) :
    (Acl.alone password authenticated).Makes Call.Looks := by
  refine ⟨True.intro, fun wantsNone => ?_⟩
  dsimp only
  split
  · exact True.intro
  · exact Acl.authenticate_looks _ _ _

theorem runOnStore_mute {server : Server} {program : Prog Value}
    (found : runOnStore server name args = some program) :
    program.Makes Call.Mute := by
  rcases runOnStore_shape found with ⟨-, writing⟩ | rfl | ⟨-, looks⟩
  · exact writing.mute
  · obtain rfl : blpopProgram args = program := Option.some.inj found
    exact blpopProgram_mute args
  · exact looks.mono fun _ => Call.Looks.mute

/-- What the modules on channels and on who is let in do not know is mute. -/
theorem runAgainst_mute {server : Server} {client : Client} {command : Command}
    (notPubsub : Pubsub.run command.uppercased command.args client.subscriptions = none)
    (notAcl : Acl.run command.uppercased command.args client.authenticated = none) :
    (runAgainst server client command).Makes Call.Mute := by
  unfold runAgainst
  simp only [notPubsub, notAcl]
  split
  · simp
  split
  · exact (runOnStore_mute ‹_›).map _
  split
  · exact ((runOnServer_quiet ‹_›).mono fun _ => Call.Quiet.mute).map _
  · simp

omit [Platform] in
theorem Call.Mute.unaired (mute : call.Mute) : call.Unaired := by
  cases call <;> first | exact id | exact fun _ => mute True.intro

omit [Platform] in
theorem Call.LetsIn.unaired (letsIn : call.LetsIn) : call.Unaired := by
  cases call <;> first | exact id | exact letsIn.elim

/-- The module on who is let in makes no calls on anything else. -/
theorem Acl.run_letsIn {authenticated : Bool} {program : Prog (Value × Bool)}
    (found : Acl.run name args authenticated = some program) :
    program.Makes Call.LetsIn := by
  have adds (passwords : List Bytes) : (Acl.addPasswords passwords).Makes Call.LetsIn := by
    induction passwords with
    | nil => exact True.intro
    | cons password passwords ih => exact ⟨True.intro, fun _ => ih⟩
  have sets (user : Bytes) (rules : List Bytes) :
      (Acl.setUser user rules).Makes Call.LetsIn := by
    unfold Acl.setUser
    split
    · exact True.intro
    split
    · exact True.intro
    · exact adds _
  have authenticates (user password : Bytes) :
      (Acl.authenticate user password authenticated).Makes Call.LetsIn := by
    unfold Acl.authenticate
    split <;> simp [Call.LetsIn]
  unfold Acl.run at found
  split at found <;> cases found
  · refine Program.Makes.map ?_ _
    unfold Acl.acl
    split
    · exact True.intro
    split
    · split <;> exact True.intro
    split
    · split
      · unfold Acl.userNamed
        split <;> simp [Call.LetsIn]
      · exact True.intro
    split
    · split
      · exact sets _ _
      · exact True.intro
    · exact True.intro
  · split
    · refine ⟨True.intro, fun wantsNone => ?_⟩
      dsimp only
      split
      · exact True.intro
      · exact authenticates _ _
    · exact authenticates _ _
    · exact True.intro

/-- What the module on channels does not know has nothing to do with them. -/
theorem runAgainst_unaired {server : Server} {client : Client} {command : Command}
    (notPubsub : Pubsub.run command.uppercased command.args client.subscriptions = none) :
    (runAgainst server client command).Makes Call.Unaired := by
  cases isAcl : Acl.run command.uppercased command.args client.authenticated with
  | none => exact (runAgainst_mute notPubsub isAcl).mono fun _ mute => mute.unaired
  | some program =>
    unfold runAgainst
    simp only [notPubsub, isAcl]
    split
    · exact True.intro
    split
    · exact ((runOnStore_mute ‹_›).mono fun _ mute => mute.unaired).map _
    · exact ((Acl.run_letsIn isAcl).mono fun _ letsIn => letsIn.unaired).map _

omit [Platform] in
theorem afterwards_mute (server : Server) (command : Command) (replied : Value × Client) :
    (afterwards server command replied).Makes Call.Mute := by
  have passes (written : Value) : (passOn server written replied).Makes Call.Mute := by
    unfold passOn
    split <;> simp [Call.Mute, Call.Speaks]
  unfold afterwards
  split
  · simp
  · split
    · simp
    · unfold noteDown
      split
      · refine ⟨id, fun recorded => ?_⟩
        dsimp only
        split
        · exact passes _
        · simp
      · exact passes _

end

end RedisServer
