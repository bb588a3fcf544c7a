import RedisServer.Server.World

/-!
# What a call leaves alone

Each call on what the connections share has to do with one part of it: the store, the
log, the replicas, the channels or the passwords.  The other parts it leaves alone.
-/

namespace RedisServer

namespace Call

/-- The calls that have to do with the store. -/
def OnStore : Call → Bool
  | .store _ | .receive _ _ | .notified _ _ => true
  | _ => false

/-- The calls that have to do with the log. -/
def OnLog : Call → Bool
  | .record _ => true
  | _ => false

/-- The calls that have to do with the replicas. -/
def OnReplicas : Call → Bool
  | .send _ | .advance _ | .count | .caughtUpTo _ => true
  | _ => false

/-- The calls that have to do with who listens to what. -/
def OnChannels : Call → Bool
  | .joined _ _ | .left _ _ | .publish _ _ => true
  | _ => false

/-- The calls that change who is let in. -/
def OnPasswords : Call → Bool
  | .addPassword _ => true
  | _ => false

end Call

/-- The parts a call has nothing to do with are as they were. -/
structure Framed (call : Call) (world after : World) : Prop where
  store : call.OnStore = false → after.store = world.store
  log : call.OnLog = false → after.log = world.log
  replicas : call.OnReplicas = false →
    after.replicas = world.replicas ∧ after.offset = world.offset
  channels : call.OnChannels = false →
    after.channels = world.channels ∧ after.mail = world.mail
  passwords : call.OnPasswords = false → after.passwords = world.passwords

theorem Framed.refl (call : Call) (world : World) : Framed call world world :=
  ⟨fun _ => rfl, fun _ => rfl, fun _ => ⟨rfl, rfl⟩, fun _ => ⟨rfl, rfl⟩, fun _ => rfl⟩

/-- Every call leaves alone what it has nothing to do with. -/
theorem perform_framed {env : Env} {world after : World} {call : Call} {reply : call.Reply}
    (performed : world.perform env call = .done after reply) : Framed call world after := by
  cases call with
  | store _ | receive _ _ | notified _ _ =>
    simp only [World.perform] at performed
    repeat' split at performed
    all_goals
      cases performed
      try exact ⟨nofun, fun _ => rfl, fun _ => ⟨rfl, rfl⟩, fun _ => ⟨rfl, rfl⟩, fun _ => rfl⟩
  | record _ =>
    simp only [World.perform] at performed
    split at performed
    all_goals
      cases performed
      exact ⟨fun _ => rfl, nofun, fun _ => ⟨rfl, rfl⟩, fun _ => ⟨rfl, rfl⟩, fun _ => rfl⟩
  | send _ =>
    simp only [World.perform] at performed
    split at performed
    all_goals
      cases performed
      exact ⟨fun _ => rfl, fun _ => rfl, nofun, fun _ => ⟨rfl, rfl⟩, fun _ => rfl⟩
  | left _ _ | publish _ _ =>
    simp only [World.perform] at performed
    split at performed
    all_goals
      cases performed
      exact ⟨fun _ => rfl, fun _ => rfl, fun _ => ⟨rfl, rfl⟩, nofun, fun _ => rfl⟩
  | stirred _ _ =>
    simp only [World.perform] at performed
    repeat' split at performed
    all_goals
      cases performed
      try exact .refl _ _
  | never | overflow => cases performed
  | advance _ | count | caughtUpTo _ =>
    cases performed
    exact ⟨fun _ => rfl, fun _ => rfl, nofun, fun _ => ⟨rfl, rfl⟩, fun _ => rfl⟩
  | joined _ _ =>
    cases performed
    exact ⟨fun _ => rfl, fun _ => rfl, fun _ => ⟨rfl, rfl⟩, nofun, fun _ => rfl⟩
  | addPassword _ =>
    cases performed
    exact ⟨fun _ => rfl, fun _ => rfl, fun _ => ⟨rfl, rfl⟩, fun _ => ⟨rfl, rfl⟩, nofun⟩
  | _ =>
    cases performed
    exact .refl _ _

/-- What a call that goes through makes of the store: it is asked something, a receiver or a
waker is let go of, or it is left alone. -/
inductive Treated (env : Env) (before : State) : (call : Call) → call.Reply → State → Prop where
  | asked {call : StoreCall} {reply : call.Reply} {after : State}
      (performed : before.perform env.clock call = some (after, reply)) :
      Treated env before (.store call) reply after
  | gaveUp {receiver : Nat} {mayTimeOut : Bool}
      (isWaiting : before.oneshots[receiver]? = some .waiting) :
      Treated env before (.receive receiver mayTimeOut) none (before.giveUp receiver)
  | received {receiver : Nat} {mayTimeOut : Bool} {reply : Option Bytes}
      (unawaited : before.oneshots[receiver]? ≠ some .waiting) :
      Treated env before (.receive receiver mayTimeOut) reply before
  | released {waker : Nat} {deadline : Option Instant} {told : Bool} :
      Treated env before (.notified waker deadline) told (before.release waker)
  | aside {call : Call} {reply : call.Reply} (apart : call.OnStore = false) :
      Treated env before call reply before

theorem perform_treated {env : Env} {world after : World} {call : Call} {reply : call.Reply}
    (performed : world.perform env call = .done after reply) :
    Treated env world.store call reply after.store := by
  have framed := (perform_framed performed).store
  cases call with
  | store call =>
    simp only [World.perform] at performed
    split at performed
    · rename_i isDone
      cases performed
      exact .asked isDone
    · cases performed
  | receive receiver mayTimeOut =>
    simp only [World.perform] at performed
    split at performed
    · rename_i isHanded
      cases performed
      exact .received (by simp [isHanded])
    · rename_i isWaiting
      split at performed <;> cases performed
      exact .gaveUp isWaiting
    · rename_i notWaiting
      cases performed
      exact .received notWaiting
  | notified waker deadline =>
    simp only [World.perform] at performed
    repeat' split at performed
    all_goals
      cases performed
      try exact .released
  | _ => exact framed rfl ▸ .aside rfl

/-- A call that panics leaves everything as it was. -/
theorem perform_panicked {env : Env} {world after : World} {call : Call}
    (performed : world.perform env call = .panicked after) : after = world := by
  cases call with
  | store _ | receive _ _ | notified _ _ | record _ | send _ | stirred _ _ | left _ _
  | publish _ _ =>
    simp only [World.perform] at performed
    repeat' split at performed
    all_goals
      cases performed
      try rfl
  | _ =>
    cases performed
    try rfl

end RedisServer
