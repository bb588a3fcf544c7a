import RedisServer.Commands.Speaking
import RedisServer.Commands.Transacting

/-!
# Who is let in

A client that has not been let in can say who it is and nothing else.  What `run` comes
to for such a client is written out here: an error at once, or the lookup of one
password.  The passwords there are to be looked up all come from `ACL SETUSER`.
-/

namespace RedisServer

variable {given : String → Prop} {asked : Value} {call : Call} {command : Command}

/-- The client on a connection that has not been let in. -/
def Client.outsider (id : Nat) : Client :=
  { subscriptions := { listener := some id }, authenticated := false }

/-- The same client once it is let in. -/
def Client.insider (id : Nat) : Client := { subscriptions := { listener := some id } }

/-- The passwords a command adds to those the user may be let in with. -/
def Command.passwordsGiven (command : Command) : List Bytes :=
  match command.args with
  | action :: user :: rules =>
    if command.uppercased = "ACL" ∧ eqIgnoreAsciiCase action (utf8 "SETUSER") ∧
        user = Acl.defaultUser ∧ rules ≠ [] then
      match Acl.passwordsGiven rules with
      | .ok passwords => passwords
      | .error _ => []
    else []
  | _ => []

/-- Looks up a password by its hash and lets the client in if it is known. -/
def lookUp (id : Nat) (digest : String) : Prog (Answer × Client) :=
  .call (.accepts digest) fun accepted =>
    .ret (if accepted then (.reply ok, .insider id) else (.reply Acl.wrongPassword, .outsider id))

/-- The same for a client that names no user. -/
def lookUpAlone (id : Nat) (digest : String) : Prog (Answer × Client) :=
  .call .wantsNoPassword fun wantsNone =>
    if wantsNone then .ret (.reply Acl.noPasswordSet, .outsider id) else lookUp id digest

section

variable [Platform]

/-- The password a client asks to be let in with, as the one user there is. -/
def passwordTried (asked : Value) : Option Bytes :=
  match Command.parse asked with
  | .ok ⟨"AUTH", _, [password]⟩ => some password
  | .ok ⟨"AUTH", _, [user, password]⟩ => if user = Acl.defaultUser then some password else none
  | _ => none

omit [Platform] in
theorem Acl.digitChar_injective {left right : Nat} (leftDigit : left < 16)
    (rightDigit : right < 16) (same : Nat.digitChar left = Nat.digitChar right) :
    left = right := by
  have each : ∀ left right : Fin 16, Nat.digitChar left = Nat.digitChar right → left = right := by
    decide
  exact congrArg Fin.val (each ⟨left, leftDigit⟩ ⟨right, rightDigit⟩ same)

/-- Different passwords are kept as different hashes. -/
theorem Acl.hashed_injective (injective : Function.Injective (Platform.sha256)) :
    Function.Injective Acl.hashed := by
  intro left right same
  refine injective ?_
  have spelled := String.ofList_injective same
  generalize Platform.sha256 left = left at spelled ⊢
  generalize Platform.sha256 right = right at spelled ⊢
  induction left generalizing right with
  | nil => cases right <;> simp_all
  | cons byte left ih =>
    cases right with
    | nil => simp at spelled
    | cons other right =>
      simp only [List.flatMap_cons, List.cons_append, List.nil_append, List.cons.injEq] at spelled
      have within := byte.toNat_lt
      have withinToo := other.toNat_lt
      have high := Acl.digitChar_injective (by omega) (by omega) spelled.1
      have low := Acl.digitChar_injective (by omega) (by omega) spelled.2.1
      have isByte : byte = other := UInt8.toNat_inj.mp (by omega)
      rw [isByte, ih right spelled.2.2]

/-! ## A client that is out -/

theorem Command.error_of_parse {refusal : Value} (parsed : Command.parse asked = .error refusal) :
    ∃ text, refusal = .error text := by
  unfold Command.parse at parsed
  split at parsed
  · cases parsed
    exact ⟨_, rfl⟩
  · cases parsed
    exact ⟨_, rfl⟩
  · split at parsed <;> cases parsed
    exact ⟨_, rfl⟩

theorem runCommand_outsider (server : Server) (id : Nat) (command : Command) :
    runCommand server (.outsider id) command =
      if Acl.allowedWhileOut command.uppercased then
        answer command <$> dispatch server (.outsider id) command
      else .ret (.reply Acl.needsAuthenticating, .outsider id) := by
  cases allowed : Acl.allowedWhileOut command.uppercased with
  | false => simp [runCommand, Client.outsider, allowed]
  | true =>
    have unsteered : Transactions.steersATransaction command.uppercased = false := by
      simp only [Acl.allowedWhileOut, List.mem_cons, List.not_mem_nil, or_false,
        decide_eq_true_eq] at allowed
      rcases allowed with named | named | named | named <;> rw [named] <;> rfl
    have isNone : Transactions.steer command {} = none := by
      rw [← Option.not_isSome_iff_eq_none, Transactions.steer_isSome, unsteered]
      simp
    simp [runCommand, Client.outsider, allowed, Subscriptions.listening, unsteered, carryOut,
      isNone]

/-- What `AUTH` comes to for a client that is out. -/
theorem dispatch_auth (server : Server) (id : Nat) (name : Bytes) (args : List Bytes) :
    answer ⟨"AUTH", name, args⟩ <$> dispatch server (.outsider id) ⟨"AUTH", name, args⟩ =
      match args with
      | [password] => lookUpAlone id (Acl.hashed password)
      | [user, password] =>
        if user = Acl.defaultUser then lookUp id (Acl.hashed password)
        else .ret (.reply Acl.wrongPassword, .outsider id)
      | _ => .ret (.reply (wrongArity "auth"), .outsider id) := by
  rcases args with _ | ⟨first, _ | ⟨second, _ | ⟨third, rest⟩⟩⟩
  · rfl
  · refine congrArg (Program.call _) (funext fun wantsNone => ?_)
    cases wantsNone with
    | true => rfl
    | false =>
      refine congrArg (Program.call _) (funext fun accepted => ?_)
      cases accepted <;> rfl
  · by_cases isDefault : first = Acl.defaultUser
    · subst isDefault
      refine congrArg (Program.call _) (funext fun accepted => ?_)
      cases accepted <;> rfl
    · change answer _ <$> Program.bind (_ <$> Acl.authenticate first second false) _ = _
      rw [Acl.authenticate, if_pos isDefault]
      exact (if_neg isDefault).symm
  · rfl

theorem run_outsider_none (server : Server) (id : Nat) (untried : passwordTried asked = none) :
    ∃ text, run server (.outsider id) asked = .ret (.reply (.error text), .outsider id) := by
  cases parsed : Command.parse asked with
  | error refusal =>
    obtain ⟨text, rfl⟩ := Command.error_of_parse parsed
    exact ⟨text, by simp only [run, parsed]⟩
  | ok command =>
    obtain ⟨uppercased, name, args⟩ := command
    simp only [run, parsed, runCommand_outsider]
    split
    · rename_i allowed
      simp only [Acl.allowedWhileOut, List.mem_cons, List.not_mem_nil, or_false,
        decide_eq_true_eq] at allowed
      rcases allowed with rfl | rfl | rfl | rfl
      · rw [dispatch_auth]
        simp only [passwordTried, parsed] at untried
        split
        · simp at untried
        · simp only at untried
          split at untried
          · cases untried
          · rename_i notDefault
            exact ⟨_, by rw [if_neg notDefault]; rfl⟩
        · exact ⟨_, rfl⟩
      · exact ⟨_, rfl⟩
      · exact ⟨_, rfl⟩
      · exact ⟨_, rfl⟩
    · exact ⟨_, rfl⟩

theorem run_outsider_some (server : Server) (id : Nat) {password : Bytes}
    (tried : passwordTried asked = some password) :
    run server (.outsider id) asked = lookUp id (Acl.hashed password) ∨
      run server (.outsider id) asked = lookUpAlone id (Acl.hashed password) := by
  unfold passwordTried at tried
  split at tried
  · rename_i parsed
    cases tried
    right
    simp only [run, parsed, runCommand_outsider]
    exact dispatch_auth server id _ _
  · rename_i parsed
    split at tried
    · rename_i isDefault
      cases tried
      left
      simp only [run, parsed, runCommand_outsider]
      exact (dispatch_auth server id _ _).trans (if_pos isDefault)
    · cases tried
  · cases tried

/-! ## Where passwords come from -/

/-- The calls that take on no passwords but these. -/
def Call.GivesOnly (given : String → Prop) : Call → Prop
  | .addPassword digest => given digest
  | _ => True

omit [Platform] in
theorem Call.Mute.givesOnly (mute : call.Mute) (given : String → Prop) :
    call.GivesOnly given := by
  cases call with
  | addPassword digest => exact absurd True.intro mute
  | _ => exact True.intro

omit [Platform] in
theorem Call.Airs.givesOnly (airs : call.Airs) (given : String → Prop) :
    call.GivesOnly given := by
  cases call <;> first | exact True.intro | exact airs.elim

omit [Platform] in
theorem Call.GivesOnly.mono {wider : String → Prop}
    (included : ∀ digest, given digest → wider digest) (gives : call.GivesOnly given) :
    call.GivesOnly wider := by
  cases call with
  | addPassword digest => exact included digest gives
  | _ => exact True.intro

/-- The hashes of the passwords a command gives. -/
def Command.gives (command : Command) (digest : String) : Prop :=
  ∃ password ∈ command.passwordsGiven, digest = Acl.hashed password

theorem Acl.addPasswords_givesOnly {passwords : List Bytes}
    (all : ∀ password ∈ passwords, given (Acl.hashed password)) :
    (Acl.addPasswords passwords).Makes (Call.GivesOnly given) := by
  induction passwords with
  | nil => exact True.intro
  | cons password passwords ih =>
    rw [List.forall_mem_cons] at all
    exact ⟨all.1, fun _ => ih all.2⟩

theorem Acl.acl_givesOnly (name : Bytes) (args : List Bytes) :
    (Acl.acl args).Makes (Call.GivesOnly (Command.gives ⟨"ACL", name, args⟩)) := by
  have looks {program : Prog Value} (makes : program.Makes Call.Looks) :
      program.Makes (Call.GivesOnly (Command.gives ⟨"ACL", name, args⟩)) :=
    makes.mono fun call looks => looks.mute.givesOnly _
  unfold Acl.acl
  split
  · exact looks True.intro
  split
  · split <;> exact looks True.intro
  split
  · split
    · exact looks (Acl.userNamed_looks _)
    · exact looks True.intro
  split
  · rename_i isSetUser
    split
    · rename_i user rule rules
      unfold Acl.setUser
      split
      · exact looks True.intro
      · rename_i isDefault
        split
        · exact looks True.intro
        · rename_i passwords given
          refine Acl.addPasswords_givesOnly fun password member => ⟨password, ?_, rfl⟩
          simpa [Command.passwordsGiven, isSetUser, not_not.mp isDefault, given] using member
    · exact looks True.intro
  · exact looks True.intro

theorem runAgainst_givesOnly (server : Server) (client : Client) (command : Command) :
    (runAgainst server client command).Makes (Call.GivesOnly command.gives) := by
  obtain ⟨uppercased, name, args⟩ := command
  cases isPubsub : Pubsub.run uppercased args client.subscriptions with
  | some program =>
    have airs := (Pubsub.run_airs isPubsub).mono fun call airs => airs.givesOnly
      (Command.gives ⟨uppercased, name, args⟩)
    unfold runAgainst
    simp only [isPubsub]
    split
    · simp
    · exact airs.map _
  | none =>
    cases isAcl : Acl.run uppercased args client.authenticated with
    | none =>
      exact (runAgainst_mute isPubsub isAcl).mono fun call mute => mute.givesOnly _
    | some program =>
      unfold Acl.run at isAcl
      split at isAcl <;> cases isAcl
      · exact ((Acl.acl_givesOnly name args).map _).map _
      · refine Program.Makes.map (Program.Makes.mono ?_ fun call looks =>
          Call.Looks.mute looks |>.givesOnly _) _
        split
        · exact Acl.alone_looks _ _
        · exact Acl.authenticate_looks _ _ _
        · exact True.intro

theorem dispatch_givesOnly (server : Server) (client : Client) (command : Command) :
    (dispatch server client command).Makes (Call.GivesOnly command.gives) :=
  (runAgainst_givesOnly server client command).bind fun replied =>
    (afterwards_mute server command replied).mono fun _ mute => mute.givesOnly _

/-- The commands a client has put aside. -/
def Client.aside (client : Client) : List Command := client.transaction.queued.getD []

/-- What is dispatched leaves what is put aside alone. -/
theorem dispatch_aside (server : Server) (client : Client) (command : Command) :
    (dispatch server client command).Returns fun replied => replied.2.aside = client.aside := by
  by_cases isUnwatch : command.uppercased = "UNWATCH"
  · rw [dispatch_unwatch isUnwatch, Program.returns_ret]
    split <;> rfl
  · exact (dispatch_watched isUnwatch server client).mono fun _ kept => by
      rw [Client.aside, kept, Client.aside]

theorem execute_aside (server : Server) (client : Client) (replies : List Value)
    (queued : List Command) :
    (execute server client replies queued).Returns fun replied =>
      replied.2.aside = client.aside := by
  induction queued generalizing client replies with
  | nil => rfl
  | cons command queued ih =>
    exact (dispatch_aside server client command).bind fun replied same =>
      (ih replied.2 _).mono fun _ later => later.trans same

theorem execute_givesOnly (server : Server) (client : Client) (replies : List Value)
    {queued : List Command}
    (all : ∀ command ∈ queued, ∀ digest, command.gives digest → given digest) :
    (execute server client replies queued).Makes (Call.GivesOnly given) := by
  induction queued generalizing client replies with
  | nil => exact True.intro
  | cons command queued ih =>
    rw [List.forall_mem_cons] at all
    refine ((dispatch_givesOnly server client command).mono fun call gives => ?_).bind
      fun replied => ih _ _ all.2
    exact Call.GivesOnly.mono all.1 gives

omit [Platform] in
/-- A command that steers a transaction puts nothing aside, and executes only what was. -/
theorem Transactions.steer_aside {transaction : Transaction}
    {program : Prog (Transactions.Steered × Transaction)}
    (steered : Transactions.steer command transaction = some program) :
    program.Returns fun came =>
      (∀ command ∈ came.2.queued.getD [], command ∈ transaction.queued.getD []) ∧
        ∀ queued, came.1 = .execute queued → queued = transaction.queued.getD [] := by
  unfold Transactions.steer at steered
  split at steered
  · cases steered
    split <;> simp_all
  · cases steered
    split
    · intro unchanged
      cases unchanged <;> simp_all
    · simp
    · simp
  · cases steered
    split
    · simp
    · simp
    · intro versions
      simp
  · cases steered
    split <;> simp_all
  · cases steered

theorem carryOut_givesOnly (server : Server) (client : Client) (command : Command)
    (all : ∀ each ∈ command :: client.aside, ∀ digest, each.gives digest → given digest) :
    (carryOut server client command).Makes (Call.GivesOnly given) ∧
      (carryOut server client command).Returns fun replied =>
        ∀ each ∈ replied.2.aside, each ∈ client.aside := by
  rw [List.forall_mem_cons] at all
  unfold carryOut
  split
  · exact ⟨(dispatch_givesOnly server client command).mono fun call => Call.GivesOnly.mono all.1,
      (dispatch_aside server client command).mono fun replied same each => by rw [same]; exact id⟩
  · rename_i program steered
    have aside := Transactions.steer_aside steered
    have mute := (Transactions.steer_watches steered).mono fun call watches =>
      (Call.Watches.mute watches).givesOnly given
    refine ⟨aside.bind_makes mute ?_, aside.bind ?_⟩
    · rintro ⟨reply | queued, transaction⟩ ⟨-, executes⟩
      · exact True.intro
      · obtain rfl := executes queued rfl
        exact execute_givesOnly server _ [] all.2
    · rintro ⟨reply | queued, transaction⟩ ⟨kept, -⟩
      · exact kept
      · refine (execute_aside server _ [] queued).mono fun replied same each member => ?_
        rw [same] at member
        exact kept each member

/-- What a command gives comes from the command itself or from what was put aside, and only
the command itself may come to be put aside. -/
theorem run_givesOnly (server : Server) (client : Client) (asked : Value)
    (all : ∀ command, command ∈ client.aside ∨ Command.parse asked = .ok command →
      ∀ digest, command.gives digest → given digest) :
    (run server client asked).Makes (Call.GivesOnly given) ∧
      (run server client asked).Returns fun answered => ∀ command ∈ answered.2.aside,
        command ∈ client.aside ∨ Command.parse asked = .ok command := by
  cases parsed : Command.parse asked with
  | error refusal => simp [run, parsed]
  | ok command =>
    rw [parsed] at all
    simp only [run, parsed, runCommand]
    split
    · exact ⟨True.intro, fun each => .inl⟩
    split
    · exact ⟨True.intro, fun each => .inl⟩
    split
    · rename_i queued unsteered isQueue
      refine ⟨True.intro, fun each member => ?_⟩
      simp only [Client.aside, Option.getD_some, List.mem_append, List.mem_singleton] at member
      rcases member with member | rfl
      · exact .inl (by simpa [Client.aside, isQueue] using member)
      · exact .inr rfl
    · obtain ⟨makes, returns⟩ := carryOut_givesOnly server client command
        (List.forall_mem_cons.mpr
          ⟨all command (.inr rfl), fun each member => all each (.inl member)⟩)
      exact ⟨makes.map _, .map (returns.mono fun replied kept each member =>
        .inl (kept each member))⟩

/-! ## What `ACL SETUSER` comes to -/

omit [Platform] in
/-- Only `ACL SETUSER` gives passwords, and only when every rule is followed. -/
theorem Command.setUser_of_gives (gives : command.passwordsGiven ≠ []) :
    ∃ action rule rules, command.uppercased = "ACL" ∧
      command.args = action :: Acl.defaultUser :: rule :: rules ∧
      eqIgnoreAsciiCase action (utf8 "SETUSER") ∧
      Acl.passwordsGiven (rule :: rules) = .ok command.passwordsGiven := by
  obtain ⟨uppercased, name, args⟩ := command
  simp only [passwordsGiven] at gives ⊢
  split at gives
  · rename_i action user rules
    split at gives
    · rename_i isSetUser
      obtain ⟨isAcl, isAction, isDefault, hasRules⟩ := isSetUser
      obtain ⟨rule, rules, rfl⟩ := List.exists_cons_of_ne_nil hasRules
      refine ⟨action, rule, rules, isAcl, by rw [isDefault], isAction, ?_⟩
      rw [if_pos ⟨isAcl, isAction, isDefault, hasRules⟩]
      split at gives
      · rename_i passwords given
        rw [given]
      · exact absurd rfl gives
    · exact absurd rfl gives
  · exact absurd rfl gives

/-- A command that gives passwords takes them on one by one and does nothing else. -/
theorem dispatch_setUser (server : Server) (client : Client) (gives : command.passwordsGiven ≠ []) :
    dispatch server client command =
      (fun reply => (reply, client)) <$> Acl.addPasswords command.passwordsGiven := by
  obtain ⟨action, rule, rules, isAcl, isArgs, isAction, given⟩ := Command.setUser_of_gives gives
  generalize command.passwordsGiven = passwords at given
  have isSetUser : Acl.acl command.args = Acl.addPasswords passwords := by
    have other (word : String) (apart : (utf8 "SETUSER").map eqIgnoreAsciiCase.lower ≠
        (utf8 word).map eqIgnoreAsciiCase.lower) :
        eqIgnoreAsciiCase action (utf8 word) = false := by
      simp only [eqIgnoreAsciiCase, beq_iff_eq] at isAction
      simpa [eqIgnoreAsciiCase, isAction] using apart
    simp [isArgs, Acl.acl, other "WHOAMI" (by decide), other "GETUSER" (by decide), isAction,
      Acl.setUser, given]
  have against : runAgainst server client command =
      (fun reply => (reply, client)) <$> Acl.addPasswords passwords := by
    rw [← isSetUser]
    obtain ⟨uppercased, name, args⟩ := command
    simp only at isAcl
    subst isAcl
    change _ <$> _ <$> Acl.acl args = _
    simp only [Program.map_eq_bind, Program.bind_bind, Program.ret_bind]
  have unwritten (reply : Value) : afterwards server command (reply, client) =
      .ret (reply, client) :=
    afterwards_unwritten (.inl (by simp [writtenDown, recordedAsSent, isAcl]))
  simp only [dispatch, against, Program.bind_eq, Program.map_eq_bind, Program.bind_bind,
    Program.ret_bind, unwritten]

theorem Acl.addPasswords_runs {passwords : List Bytes} {steps : List (Step Env World)}
    {reply : Value} (runs : (Acl.addPasswords passwords).Runs machine steps reply) :
    ∀ password ∈ passwords, ∃ step ∈ steps,
      machine.perform step.env step.before (.addPassword (Acl.hashed password)) =
        .done step.after () := by
  induction passwords generalizing steps with
  | nil => simp
  | cons password passwords ih =>
    cases runs with
    | call performed rest =>
      rw [List.forall_mem_cons]
      refine ⟨⟨_, List.mem_cons_self, performed⟩, fun other member => ?_⟩
      obtain ⟨step, isStep, adds⟩ := ih rest other member
      exact ⟨step, List.mem_cons_of_mem _ isStep, adds⟩

end

end RedisServer
