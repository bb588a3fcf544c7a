import RedisServer.Lib.Registry
import RedisServer.Commands.Subscribing
import RedisServer.Concurrency.Pool
import RedisServer.Server.Frames

/-!
# Who listens, and what they are told

The server's tally of listeners says of each connection what the connection's own list
says, whatever the connections do and in whatever order.  So a message is counted and
queued once for each connection that is on the channel when it is published.
-/

namespace RedisServer

variable {id : Nat} {what : Happening} {world : World} {moved stage : Stage} {server : Server}
  {move : Move} {env : Env} {channel : Bytes}

/-! ## What has happened to a connection's channels -/

/-- What becomes of the channels a connection is on. -/
def Happening.tunes (on : List Bytes) : Happening → List Bytes
  | .called _ (.joined channel _) _ => on ++ [channel]
  | .called _ (.left channel _) _ => on.erase channel
  | .hungUp | .panicked => []
  | _ => on

/-- The channels a connection is on, and what has been published on them while it was. -/
structure Tuning where
  on : List Bytes := []
  sent : List Bytes := []

def Tuning.after (id : Nat) (tuning : Tuning) (moment : Moment) : Tuning where
  on := if moment.id = id then moment.what.tunes tuning.on else tuning.on
  sent :=
    match moment.what with
    | .called _ (.publish channel delivery) _ =>
      if channel ∈ tuning.on then tuning.sent ++ [delivery] else tuning.sent
    | _ => tuning.sent

def tuning (id : Nat) (history : List Moment) : Tuning := history.foldl (Tuning.after id) {}

/-- The channels a connection is on after all that has happened. -/
def own (history : List Moment) (id : Nat) : List Bytes := (tuning id history).on

/-- The message that was written out, if one was. -/
def Happening.message : Happening → Option Bytes
  | .heard message => some message
  | _ => none

/-- The messages a connection has written out. -/
def heard (id : Nat) (history : List Moment) : List Bytes :=
  history.filterMap fun moment => if moment.id = id then moment.what.message else none

theorem tuning_concat (id : Nat) (history : List Moment) (moment : Moment) :
    tuning id (history ++ [moment]) = (tuning id history).after id moment := by
  simp [tuning]

theorem own_concat (history : List Moment) (moment : Moment) (id : Nat) :
    own (history ++ [moment]) id =
      if moment.id = id then moment.what.tunes (own history id) else own history id := by
  simp [own, tuning_concat, Tuning.after]

theorem heard_concat (id : Nat) (history : List Moment) (moment : Moment) :
    heard id (history ++ [moment]) =
      heard id history ++ (if moment.id = id then moment.what.message else none).toList := by
  unfold heard
  rw [List.filterMap_append]
  cases found : (if moment.id = id then moment.what.message else none) <;> simp [found]

/-- Whether something happened to the channels or to what is queued for connections. -/
def Happening.airs : Happening → Bool
  | .called _ (.joined _ _) _ | .called _ (.left _ _) _ | .called _ (.publish _ _) _ => true
  | .heard _ | .hungUp | .panicked => true
  | _ => false

theorem tunes_of_quiet (quiet : what.airs = false) (on : List Bytes) :
    what.tunes on = on := by
  cases what with
  | called env call reply => cases call <;> first | rfl | cases quiet
  | _ => first | rfl | cases quiet

theorem message_of_quiet (quiet : what.airs = false) : what.message = none := by
  cases what <;> first | rfl | cases quiet

theorem tuning_of_quiet {history : List Moment} {moment : Moment}
    (quiet : moment.what.airs = false) : tuning id (history ++ [moment]) = tuning id history := by
  rw [tuning_concat, Tuning.after, tunes_of_quiet quiet, ite_self]
  obtain ⟨turn, world, what⟩ := moment
  cases what with
  | called env call reply => cases call <;> first | rfl | cases quiet
  | _ => rfl

/-! ## A message published -/

theorem lookup_foldl_deliver (delivery : Bytes) (listeners : List Nat) (nodup : listeners.Nodup)
    (mail : Map Nat (List Bytes)) (id : Nat) :
    (listeners.foldl (fun mail listener => World.deliver mail delivery listener) mail)[id]? =
      if id ∈ listeners then mail[id]?.map fun messages => messages ++ [delivery]
      else mail[id]? := by
  induction listeners generalizing mail with
  | nil => simp
  | cons listener listeners ih =>
    obtain ⟨notLater, nodup⟩ := List.nodup_cons.mp nodup
    have delivered : (World.deliver mail delivery listener)[id]? =
        if id = listener then mail[id]?.map fun messages => messages ++ [delivery]
        else mail[id]? := by
      unfold World.deliver
      cases found : mail[listener]? with
      | none =>
        by_cases isFirst : id = listener
        · simp [isFirst, found]
        · simp [isFirst]
      | some messages =>
        by_cases isFirst : id = listener
        · simp [isFirst, found]
        · simp [isFirst, Map.lookup_insert]
    rw [List.foldl_cons, ih nodup, delivered]
    by_cases isFirst : id = listener
    · simp [isFirst, notLater]
    · by_cases isLater : id ∈ listeners <;> simp [isFirst, isLater]

/-- What a publish comes to while everyone in the tally is connected. -/
theorem perform_publish {after : World} {delivery : Bytes} {reached : Nat} {own : Nat → List Bytes}
    (mirrors : Registry.Mirrors world.channels own)
    (connected : ∀ id, channel ∈ own id → world.mail[id]?.isSome = true)
    (performed : world.perform env (.publish channel delivery) = .done after reached) :
    after.channels = world.channels ∧
      reached = (Registry.listeners world.channels channel).length ∧
      ∀ id, after.mail[id]? =
        if channel ∈ own id then world.mail[id]?.map fun messages => messages ++ [delivery]
        else world.mail[id]? := by
  have isOn (id : Nat) := mirrors.mem_iff channel id
  cases found : world.channels[channel]? with
  | none =>
    simp only [World.perform, found] at performed
    cases performed
    have nobody : Registry.listeners world.channels channel = [] := by
      simp [Registry.listeners, found]
    rw [nobody] at isOn ⊢
    exact ⟨rfl, rfl, fun id => by simp [← isOn id]⟩
  | some listeners =>
    have isListeners : Registry.listeners world.channels channel = listeners := by
      simp [Registry.listeners, found]
    rw [isListeners] at isOn ⊢
    have everyone : (listeners.filter fun id => world.mail[id]?.isSome) = listeners :=
      List.filter_eq_self.mpr fun id member => connected id ((isOn id).mp member)
    have somebody : listeners.isEmpty = false :=
      List.isEmpty_eq_false_iff.mpr fun nobody => mirrors.kept channel (by rw [found, nobody])
    simp only [World.perform, found, everyone, somebody] at performed
    cases performed
    refine ⟨Std.ExtTreeMap.ext_getElem? fun other => ?_, rfl, fun id => ?_⟩
    · rw [if_neg (by simp), Map.lookup_insert]
      split
      · rename_i same
        rw [same, found]
      · rfl
    · rw [lookup_foldl_deliver delivery listeners (isListeners ▸ mirrors.nodup channel)]
      simp only [isOn id]

/-! ## What a turn does to the channels -/

/-- Whether a connection has ended. -/
def Stage.isGone : Stage → Bool
  | .gone => true
  | _ => false

/-- What may become of the channels and of the queues on a turn of a connection. -/
inductive Aired (id : Nat) (world after : World) (moved : Stage) : Happening → Prop where
  | aside {what : Happening} (quiet : what.airs = false) (stays : moved.isGone = false)
      (channels : after.channels = world.channels) (mail : after.mail = world.mail) :
      Aired id world after moved what
  | joined (env : Env) (channel : Bytes) (listener : Nat) (stays : moved.isGone = false)
      (channels : after.channels = Registry.join world.channels channel listener)
      (mail : after.mail = world.mail) :
      Aired id world after moved (.called env (.joined channel listener) ())
  | left (env : Env) (channel : Bytes) (listener : Nat) (stays : moved.isGone = false)
      (channels : after.channels = Registry.leave world.channels channel listener)
      (mail : after.mail = world.mail) :
      Aired id world after moved (.called env (.left channel listener) ())
  | published (env : Env) (channel delivery : Bytes) (reached : Nat) (stays : moved.isGone = false)
      (performed : world.perform env (.publish channel delivery) = .done after reached) :
      Aired id world after moved (.called env (.publish channel delivery) reached)
  | heard (message : Bytes) (messages : List Bytes) (stays : moved.isGone = false)
      (waiting : world.mail[id]? = some (message :: messages))
      (channels : after.channels = world.channels)
      (mail : after.mail = world.mail.insert id messages) :
      Aired id world after moved (.heard message)
  | ended {what : Happening} (ends : what = .hungUp ∨ what = .panicked) (gone : moved = .gone)
      (channels : after.channels = Registry.forget world.channels id)
      (mail : after.mail = world.mail.erase id) :
      Aired id world after moved what

/-- A connection is taken off a channel. -/
def World.leaves (world : World) (id : Nat) (channel : Bytes) : World :=
  { world with channels := Registry.leave world.channels channel id }

theorem perform_left (env : Env) (world : World) (channel : Bytes) (id : Nat) :
    world.perform env (.left channel id) = .done (world.leaves id channel) () := by
  simp only [World.perform, World.leaves, Registry.leave]
  cases world.channels[channel]? <;> rfl

theorem perform_aired {after : World} {call : Call} {reply : call.Reply}
    (stays : moved.isGone = false) (performed : world.perform env call = .done after reply) :
    Aired id world after moved (.called env call reply) := by
  cases call with
  | joined channel listener =>
    cases performed
    exact .joined env channel listener stays rfl rfl
  | left channel listener =>
    rw [perform_left] at performed
    cases performed
    exact .left env channel listener stays rfl rfl
  | publish channel delivery => exact .published env channel delivery reply stays performed
  | _ =>
    obtain ⟨channels, mail⟩ := (perform_framed performed).channels rfl
    exact .aside rfl stays channels mail

section

variable [Platform]

theorem Stage.Moves.aired {after : World}
    (moves : Stage.Moves server id world stage move moved after what) :
    Aired id world after moved what := by
  cases moves with
  | call performed => exact perform_aired rfl performed
  | panic performed =>
    rw [perform_panicked performed]
    exact .ended (.inr rfl) rfl rfl rfl
  | hear client waiting => exact .heard _ _ rfl waiting rfl rfl
  | leave _ | fail _ _ | lose _ => exact .ended (.inl rfl) rfl rfl rfl
  | _ => exact .aside rfl rfl rfl rfl

/-- A connection that has ended has no more turns. -/
theorem Stage.Moves.isHere {after : World}
    (moves : Stage.Moves server id world stage move moved after what) :
    stage.isGone = false := by
  cases moves <;> rfl

/-- A connection that ends is on no channel, and nothing is queued for it. -/
theorem Stage.Moves.ended {after : World}
    (moves : Stage.Moves server id world stage move moved after what)
    (isGone : moved.isGone = true) :
    (∀ on, what.tunes on = []) ∧ after.mail[id]? = none := by
  cases moves.aired with
  | ended ends gone channels mail =>
    rw [mail, Map.lookup_erase, if_pos rfl]
    rcases ends with rfl | rfl <;> exact ⟨fun _ => rfl, rfl⟩
  | _ => simp_all

/-! ## A connection that keeps to its list -/

/-- Where a connection stands that is on these channels. -/
def Stage.Tuned (id : Nat) (on : List Bytes) : Stage → Prop
  | .idle client => client.subscriptions = tuned id on
  | .running _ program => program.Keeps (subscribing id) (LeavesTuned id) on
  | .gone => on = []
  | _ => True

/-- No channel is joined twice, and none is left that was not joined. -/
def Happening.Fits (id : Nat) (on : List Bytes) : Happening → Prop
  | .called _ (.joined channel listener) _ => listener = id ∧ channel ∉ on
  | .called _ (.left channel listener) _ => listener = id ∧ channel ∈ on
  | _ => True

theorem Stage.Tuned.moves {after : World} {on : List Bytes} (isTuned : stage.Tuned id on)
    (moves : Stage.Moves server id world stage move moved after what) :
    moved.Tuned id (what.tunes on) ∧ what.Fits id on := by
  cases moves with
  | ask client value => exact ⟨run_subscribing server isTuned value, True.intro⟩
  | hear client waiting => exact ⟨isTuned, True.intro⟩
  | @call asked request resume env after reply performed =>
    have rest := isTuned.2 reply
    have allows := isTuned.1
    cases request <;> exact ⟨rest, allows⟩
  | answer asked value client => exact ⟨isTuned, True.intro⟩
  | leave _ | panic _ | fail _ _ | lose _ => exact ⟨rfl, True.intro⟩
  | _ => exact ⟨True.intro, True.intro⟩

omit [Platform] in
theorem Happening.Fits.nodup {on : List Bytes} (fits : what.Fits id on) (nodup : on.Nodup) :
    (what.tunes on).Nodup := by
  unfold Happening.tunes
  split
  · rw [← List.concat_eq_append]
    exact List.Nodup.concat fits.2 nodup
  · exact nodup.erase _
  · exact List.nodup_nil
  · exact List.nodup_nil
  · exact nodup

/-! ## Both sides agree -/

/-- What each connection knows of its channels and what the server knows of it are the
same, and what is queued for it is what has been published to it and not written out. -/
structure Pool.Registered (pool : Pool) : Prop where
  mirrors : Registry.Mirrors pool.world.channels (own pool.history)
  nodup : ∀ id, (own pool.history id).Nodup
  stages : ∀ (id : Nat) (stage : Stage), pool.stages[id]? = some stage →
    stage.Tuned id (own pool.history id)
  queues : ∀ (id : Nat) (stage : Stage), pool.stages[id]? = some stage → stage.isGone = false →
    ∃ queue, pool.world.mail[id]? = some queue ∧
      heard id pool.history ++ queue = (tuning id pool.history).sent
  nobody : ∀ id : Nat, (∀ stage, pool.stages[id]? = some stage → stage.isGone = true) →
    own pool.history id = [] ∧ pool.world.mail[id]? = none
  unborn : ∀ id : Nat, pool.stages.length ≤ id →
    heard id pool.history = [] ∧ (tuning id pool.history).sent = []

omit [Platform] in
theorem Pool.registered_start (store : State) (log : Bytes) :
    (Pool.start store log).Registered where
  mirrors := Registry.Mirrors.empty
  nodup _ := List.nodup_nil
  stages id stage isStage := by simp [Pool.start] at isStage
  queues id stage isStage := by simp [Pool.start] at isStage
  nobody id _ := ⟨rfl, by simp [Pool.start]⟩
  unborn id _ := ⟨rfl, rfl⟩

namespace Pool.Registered

variable {pool : Pool}

omit [Platform] in
/-- Whoever is on a channel is connected. -/
theorem connected (registered : pool.Registered) (isOn : channel ∈ own pool.history id) :
    ∃ stage, pool.stages[id]? = some stage ∧ stage.isGone = false := by
  by_contra none
  push Not at none
  have nothing := (registered.nobody id fun stage isStage => by
    simpa using none stage isStage).1
  rw [nothing] at isOn
  cases isOn

omit [Platform] in
/-- What a publish comes to. -/
theorem published (registered : pool.Registered) {after : World} {delivery : Bytes} {reached : Nat}
    (performed : pool.world.perform env (.publish channel delivery) = .done after reached) :
    after.channels = pool.world.channels ∧
      reached = (Registry.listeners pool.world.channels channel).length ∧
      ∀ id, after.mail[id]? =
        if channel ∈ own pool.history id then
          pool.world.mail[id]?.map fun messages => messages ++ [delivery]
        else pool.world.mail[id]? := by
  refine perform_publish registered.mirrors (fun id isOn => ?_) performed
  obtain ⟨stage, isStage, stays⟩ := registered.connected isOn
  obtain ⟨queue, isQueue, -⟩ := registered.queues id stage isStage stays
  rw [isQueue]
  rfl

omit [Platform] in
theorem accept (registered : pool.Registered) : pool.accept.Registered := by
  have sameTuning (id : Nat) : tuning id pool.accept.history = tuning id pool.history :=
    tuning_of_quiet rfl
  have sameOwn (id : Nat) : own pool.accept.history id = own pool.history id :=
    congrArg Tuning.on (sameTuning id)
  have sameHeard (id : Nat) : heard id pool.accept.history = heard id pool.history := by
    simp [Pool.accept, heard_concat, Happening.message]
  have mail (id : Nat) : pool.accept.world.mail[id]? =
      if id = pool.stages.length then some [] else pool.world.mail[id]? := Map.lookup_insert _ _ _ _
  have notYet : ∀ stage, pool.stages[pool.stages.length]? = some stage → stage.isGone = true := by
    simp
  refine ⟨⟨fun topic id => ?_, registered.mirrors.kept⟩, fun id => ?_, fun id stage isStage => ?_,
    fun id stage isStage stays => ?_, fun id gone => ?_, fun id beyond => ?_⟩
  · rw [sameOwn]
    exact registered.mirrors.once topic id
  · rw [sameOwn]
    exact registered.nodup id
  · rw [sameOwn]
    rw [Pool.accept_lookup] at isStage
    split at isStage
    · rename_i isNew
      cases isStage
      rw [isNew, (registered.nobody _ notYet).1]
      rfl
    · exact registered.stages id stage isStage
  · rw [sameTuning, sameHeard, mail]
    rw [Pool.accept_lookup] at isStage
    split at isStage
    · rename_i isNew
      have nothing := registered.unborn id isNew.ge
      rw [if_pos isNew, nothing.1, nothing.2]
      exact ⟨[], rfl, rfl⟩
    · rename_i notNew
      rw [if_neg notNew]
      exact registered.queues id stage isStage stays
  · have notNew : id ≠ pool.stages.length := by
      rintro rfl
      have isGone := gone (.idle pool.newcomer) (by rw [Pool.accept_lookup, if_pos rfl])
      cases isGone
    rw [sameOwn, mail, if_neg notNew]
    refine registered.nobody id fun stage isStage => gone stage ?_
    rw [Pool.accept_lookup, if_neg notNew, isStage]
  · rw [sameTuning, sameHeard]
    exact registered.unborn id (by simp [Pool.accept] at beyond; omega)

/-! ### One turn -/

variable {turn : Nat}

theorem turn_mirrors (registered : pool.Registered) (isStage : pool.stages[turn]? = some stage)
    (moves : Stage.Moves server turn pool.world stage move moved world what) :
    Registry.Mirrors world.channels (own (pool.history ++ [⟨turn, pool.world, what⟩])) := by
  have isOwn (each : Nat) : own (pool.history ++ [⟨turn, pool.world, what⟩]) each =
      if each = turn then what.tunes (own pool.history turn) else own pool.history each := by
    rw [own_concat]
    by_cases isHere : each = turn
    · simp [isHere]
    · simp [isHere, Ne.symm isHere]
  have fits := ((registered.stages turn stage isStage).moves moves).2
  have untuned (same : ∀ on, what.tunes on = on) :
      own (pool.history ++ [⟨turn, pool.world, what⟩]) = own pool.history := by
    funext each
    rw [isOwn, same]
    split
    · rename_i isHere
      rw [isHere]
    · rfl
  cases moves.aired with
  | aside quiet stays channels mail =>
    rw [channels, untuned (tunes_of_quiet quiet)]
    exact registered.mirrors
  | joined env channel listener stays channels mail =>
    obtain ⟨rfl, notOn⟩ := fits
    rw [channels]
    exact registered.mirrors.join notOn isOwn
  | left env channel listener stays channels mail =>
    obtain ⟨rfl, -⟩ := fits
    rw [channels]
    exact registered.mirrors.leave (fun other => (registered.nodup listener).mem_erase_iff) isOwn
  | published env channel delivery reached stays performed =>
    rw [(registered.published performed).1, untuned fun _ => rfl]
    exact registered.mirrors
  | heard message messages stays waiting channels mail =>
    rw [channels, untuned fun _ => rfl]
    exact registered.mirrors
  | ended ends gone channels mail =>
    rw [channels]
    refine registered.mirrors.forget fun each => ?_
    rw [isOwn]
    rcases ends with rfl | rfl <;> rfl

/-- What is queued for a connection after a turn, its own or another's. -/
theorem turn_queue (registered : pool.Registered)
    (moves : Stage.Moves server turn pool.world stage move moved world what) {queue : List Bytes}
    (isQueue : pool.world.mail[id]? = some queue)
    (sent : heard id pool.history ++ queue = (tuning id pool.history).sent)
    (stays : turn = id → moved.isGone = false) :
    ∃ after, world.mail[id]? = some after ∧
      heard id (pool.history ++ [⟨turn, pool.world, what⟩]) ++ after =
        (tuning id (pool.history ++ [⟨turn, pool.world, what⟩])).sent := by
  rw [heard_concat]
  cases moves.aired with
  | aside quiet _ channels mail =>
    rw [tuning_of_quiet quiet, message_of_quiet quiet, mail]
    exact ⟨queue, isQueue, by simpa using sent⟩
  | joined env channel listener _ channels mail =>
    rw [tuning_concat, mail]
    exact ⟨queue, isQueue, by simpa [Happening.message, Tuning.after] using sent⟩
  | left env channel listener _ channels mail =>
    rw [tuning_concat, mail]
    exact ⟨queue, isQueue, by simpa [Happening.message, Tuning.after] using sent⟩
  | published env channel delivery reached _ performed =>
    rw [tuning_concat, (registered.published performed).2.2 id, isQueue]
    by_cases isOn : channel ∈ own pool.history id
    · refine ⟨queue ++ [delivery], by rw [if_pos isOn]; rfl, ?_⟩
      have isOn' : channel ∈ (tuning id pool.history).on := isOn
      simp [Happening.message, Tuning.after, isOn', ← sent]
    · refine ⟨queue, by rw [if_neg isOn], ?_⟩
      have notOn : channel ∉ (tuning id pool.history).on := isOn
      simp [Happening.message, Tuning.after, notOn, ← sent]
  | heard message messages _ waiting channels mail =>
    rw [tuning_concat, mail, Map.lookup_insert]
    by_cases isHere : turn = id
    · subst isHere
      cases isQueue.symm.trans waiting
      exact ⟨messages, by simp, by simpa [Happening.message, Tuning.after] using sent⟩
    · exact ⟨queue, by rw [if_neg fun same => isHere same.symm, isQueue],
        by simpa [Happening.message, Tuning.after, isHere] using sent⟩
  | ended ends gone channels mail =>
    have isElsewhere : turn ≠ id := fun isHere => by
      have stays := stays isHere
      rw [gone] at stays
      cases stays
    rw [tuning_concat, mail, Map.lookup_erase, if_neg isElsewhere.symm]
    refine ⟨queue, isQueue, ?_⟩
    rcases ends with rfl | rfl <;> simpa [isElsewhere, Tuning.after] using sent

/-- A connection without a queue is given none. -/
theorem turn_noQueue (registered : pool.Registered)
    (moves : Stage.Moves server turn pool.world stage move moved world what)
    (noQueue : pool.world.mail[id]? = none) : world.mail[id]? = none := by
  cases moves.aired with
  | aside quiet _ channels mail => rw [mail, noQueue]
  | joined env channel listener _ channels mail => rw [mail, noQueue]
  | left env channel listener _ channels mail => rw [mail, noQueue]
  | published env channel delivery reached _ performed =>
    rw [(registered.published performed).2.2 id, noQueue, Option.map_none, ite_self]
  | heard message messages _ waiting channels mail =>
    have isElsewhere : id ≠ turn := by
      rintro rfl
      cases noQueue.symm.trans waiting
    rw [mail, Map.lookup_insert, if_neg isElsewhere, noQueue]
  | ended ends gone channels mail => rw [mail, Map.lookup_erase, noQueue, ite_self]

theorem turn_registered (registered : pool.Registered) (isStage : pool.stages[turn]? = some stage)
    (moves : Stage.Moves server turn pool.world stage move moved world what) :
    Pool.Registered
      ⟨world, pool.stages.set turn moved, pool.history ++ [⟨turn, pool.world, what⟩]⟩ := by
  obtain ⟨isTuned, fits⟩ := (registered.stages turn stage isStage).moves moves
  refine ⟨registered.turn_mirrors isStage moves, fun id => ?_, fun id now isNow => ?_,
    fun id now isNow stays => ?_, fun id gone => ?_, fun id beyond => ?_⟩
  · rw [own_concat]
    by_cases isHere : turn = id
    · subst isHere
      rw [if_pos rfl]
      exact fits.nodup (registered.nodup turn)
    · rw [if_neg isHere]
      exact registered.nodup id
  · rw [lookup_set isStage] at isNow
    rw [own_concat]
    split at isNow
    · rename_i isHere
      cases isNow
      rw [if_pos isHere.symm, isHere]
      exact isTuned
    · rename_i isElsewhere
      rw [if_neg fun same => isElsewhere same.symm]
      exact registered.stages id now isNow
  · rw [lookup_set isStage] at isNow
    split at isNow
    · rename_i isHere
      subst isHere
      cases isNow
      obtain ⟨queue, isQueue, sent⟩ := registered.queues id stage isStage moves.isHere
      exact registered.turn_queue moves isQueue sent fun _ => stays
    · rename_i isElsewhere
      obtain ⟨queue, isQueue, sent⟩ := registered.queues id now isNow stays
      exact registered.turn_queue moves isQueue sent fun same => absurd same.symm isElsewhere
  · by_cases isHere : turn = id
    · subst isHere
      have isGone := gone moved (by rw [lookup_set isStage, if_pos rfl])
      have ended := moves.ended isGone
      rw [own_concat, if_pos rfl]
      exact ⟨ended.1 _, ended.2⟩
    · obtain ⟨nothing, noQueue⟩ := registered.nobody id fun now isNow =>
        gone now (by rw [lookup_set isStage, if_neg fun same => isHere same.symm, isNow])
      rw [own_concat, if_neg isHere]
      exact ⟨nothing, registered.turn_noQueue moves noQueue⟩
  · have within : turn < pool.stages.length := (List.getElem?_eq_some_iff.mp isStage).1
    have isElsewhere : turn ≠ id := by
      simp only [List.length_set] at beyond
      omega
    have notYet : pool.stages.length ≤ id := by simpa using beyond
    obtain ⟨nothing, unsent⟩ := registered.unborn id notYet
    have untuned : (tuning id pool.history).on = [] := (registered.nobody id fun now isNow => by
      rw [List.getElem?_eq_none notYet] at isNow
      cases isNow).1
    rw [heard_concat, tuning_concat, nothing, Tuning.after, untuned, unsent]
    refine ⟨by simp [isElsewhere], ?_⟩
    dsimp only
    split
    · simp
    · rfl

theorem step (registered : pool.Registered) {next : Pool} {choice : Choice}
    (stepped : pool.step server choice = some next) : next.Registered := by
  obtain ⟨rfl, rfl⟩ | ⟨turn, move, stage, moved, world, what, rfl, isStage, moves, rfl⟩ :=
    Pool.step_cases stepped
  · exact registered.accept
  · exact registered.turn_registered isStage moves

end Pool.Registered

/-! ## What everyone can rely on -/

/-- Whether a connection has been made and has not ended. -/
def Pool.live (pool : Pool) (id : Nat) : Bool := pool.stages[id]?.any fun stage => !stage.isGone

/-- What a connection that goes leaves behind: nothing can be queued for it, and it is taken
off its channels one by one. -/
def World.dropped (world : World) (id : Nat) (on : List Bytes) : World :=
  on.foldl (fun world channel => world.leaves id channel) { world with mail := world.mail.erase id }

omit [Platform] in
theorem dropped_eq (world : World) (id : Nat) (on : List Bytes) :
    world.dropped id on =
      { world with
        mail := world.mail.erase id
        channels := on.foldl (fun channels channel => Registry.leave channels channel id)
          world.channels } := by
  unfold World.dropped
  induction on generalizing world with
  | nil => rfl
  | cons channel on ih => exact ih (world.leaves id channel)

omit [Platform] in
theorem Pool.live_iff (pool : Pool) (id : Nat) :
    pool.live id = true ↔ ∃ stage, pool.stages[id]? = some stage ∧ stage.isGone = false := by
  simp [Pool.live, Option.any_eq_true]

omit [Platform] in
/-- Only connections there are are on channels. -/
theorem Pool.Registered.live_and_iff {pool : Pool} (registered : pool.Registered) (id : Nat)
    (channel : Bytes) : (pool.live id = true ∧ channel ∈ own pool.history id) ↔
      channel ∈ own pool.history id :=
  and_iff_right_of_imp fun isOn => (pool.live_iff id).mpr (registered.connected isOn)

/-- At every moment of a run the registry of channels says what the connections say of
themselves, a publish reaches exactly those on its channel, and each of them is written what was
published to it, in that order. -/
theorem registry_mirrors_connections (server : Server) (store : State) (log : Bytes)
    (choices : List Choice) (pool : Pool)
    (ran : Run.after (Pool.step server) (.start store log) choices = some pool) :
    -- each connection stands once in the list of each channel it is on, and nowhere else
    (∀ channel id, (Registry.listeners pool.world.channels channel).count id =
      if pool.live id ∧ channel ∈ own pool.history id then 1 else 0) ∧
    (∀ channel : Bytes, pool.world.channels[channel]? ≠ some []) ∧
    (∀ id, (own pool.history id).Nodup) ∧
    (∀ (id : Nat) (client : Client), pool.stages[id]? = some (.idle client) →
      client.subscriptions.on = own pool.history id) ∧
    (∀ id, pool.world.forget id = pool.world.dropped id (own pool.history id)) ∧
    -- a publish is answered with the number of those on the channel and queued for each of them
    (∀ env channel message after reached,
      pool.world.perform env (.publish channel (Pubsub.delivery channel message)) =
        .done after reached →
      reached = (List.range pool.stages.length).countP
          (fun id => pool.live id ∧ channel ∈ own pool.history id) ∧
        after.channels = pool.world.channels ∧
        ∀ id : Nat, after.mail[id]? =
          if pool.live id ∧ channel ∈ own pool.history id then
            pool.world.mail[id]?.map fun messages => messages ++ [Pubsub.delivery channel message]
          else pool.world.mail[id]?) ∧
    (∀ client name channel message, dispatch server client ⟨"PUBLISH", name, [channel, message]⟩ =
      .call (.publish channel (Pubsub.delivery channel message)) fun reached =>
        .ret (.integer reached, client)) ∧
    -- what has been published to a connection is what it has written out and what is queued
    (∀ id, pool.live id = true → ∃ queue, pool.world.mail[id]? = some queue ∧
      heard id pool.history ++ queue = (tuning id pool.history).sent) := by
  have registered : pool.Registered := Run.invariant_always (fun pool => pool.Registered)
    (fun _ _ _ registered => registered.step) (Pool.registered_start store log) ran
  refine ⟨fun channel id => ?_, registered.mirrors.kept, registered.nodup,
    fun id client isIdle => ?_, fun id => ?_, fun env channel message after reached performed => ?_,
    fun client name channel message => rfl, fun id isLive => ?_⟩
  · simp only [registered.live_and_iff]
    convert registered.mirrors.once channel id
  · have isTuned := registered.stages id _ isIdle
    exact congrArg Subscriptions.on isTuned
  · rw [dropped_eq, ← registered.mirrors.forget_eq_foldl id]
    rfl
  · obtain ⟨channels, isReached, mail⟩ := registered.published performed
    simp only [registered.live_and_iff]
    refine ⟨?_, channels, mail⟩
    have areThere : ∀ channel id, channel ∈ own pool.history id →
        id ∈ List.range pool.stages.length := by
      intro channel id isOn
      obtain ⟨stage, isStage, -⟩ := registered.connected isOn
      exact List.mem_range.mpr (List.getElem?_eq_some_iff.mp isStage).1
    have listening := registered.mirrors.perm_filter List.nodup_range areThere channel
    rw [isReached, listening.length_eq, List.countP_eq_length_filter]
    congr!
  · obtain ⟨stage, isStage, stays⟩ := (pool.live_iff id).mp isLive
    exact registered.queues id stage isStage stays

end

/-- A connection takes on two channels, one of them twice, and another publishes and ends. -/
def subscribedTwice : List Choice :=
  [.accept, .accept] ++ Choice.command 0 ["SUBSCRIBE", "a", "b", "a"] 2 ++
    Choice.command 1 ["PUBLISH", "a", "m"] 1 ++ [.turn 1 .hangUp]

theorem registry_mirrors_subscriber :
    ∃ pool, Run.after (@Pool.step .ascii {}) (.start {} []) subscribedTwice = some pool ∧
      own pool.history 0 = [utf8 "a", utf8 "b"] ∧
      (Registry.listeners pool.world.channels (utf8 "a")).count 0 = 1 ∧
      ∃ queue, pool.world.mail[0]? = some queue ∧
        heard 0 pool.history ++ queue = (tuning 0 pool.history).sent := by
  obtain ⟨pool, ran, seen⟩ := (Option.any_eq_true
    (fun pool : Pool => pool.live 0 && (own pool.history 0 == [utf8 "a", utf8 "b"]))
    (Run.after (@Pool.step .ascii {}) (.start {} []) subscribedTwice)).mp (by decide +kernel)
  simp only [Bool.and_eq_true, beq_iff_eq] at seen
  obtain ⟨once, -, -, -, -, -, -, queued⟩ :=
    @registry_mirrors_connections .ascii {} {} [] subscribedTwice pool ran
  refine ⟨pool, ran, seen.2, ?_, queued 0 seen.1⟩
  rw [once, if_pos ⟨seen.1, by simp [seen.2]⟩]

end RedisServer
