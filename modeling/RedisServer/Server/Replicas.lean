import RedisServer.Server.World

/-!
# The replicas a server follows

A replica is taken on when its connection turns into a replica's, and let go when the
connection ends.  In between, each command the server passes on is queued for it.
Which commands those are is told from the events alone, one replica at a time, and
compared with what the server has queued.
-/

namespace RedisServer

namespace World

/-- What one call that concerns nobody's clock leaves of the world. -/
def after (world : World) (call : Call) : World :=
  match world.perform {} call with
  | .done later _ => later
  | .panicked later => later
  | .stuck => world

/-- The connection of a replica has ended. -/
def letGo (world : World) (connection : Nat) : World :=
  { world with
    replicas := world.replicas.map fun replica =>
      { replica with closed := replica.closed || replica.connection == connection } }

/-- A replica has said how far it has got. -/
def reached (world : World) (connection offset : Nat) : World :=
  { world with
    replicas := world.replicas.map fun replica =>
      { replica with
        reached := if replica.connection = connection then offset else replica.reached }
    stirrings := world.stirrings + 1 }

end World

/-- What happens to the replicas of a server. -/
inductive ReplicaEvent where
  | add (connection : Nat)
  | send (command : Value)
  | hangUp (connection : Nat)
  | reached (connection offset : Nat)
  | count
  | caughtUpTo (offset : Nat)

/-- What an event makes of the world. -/
def World.happen (world : World) : ReplicaEvent → World
  | .add connection => world.takeOn connection
  | .send command => world.after (.send command)
  | .hangUp connection => world.letGo connection
  | .reached connection offset => world.reached connection offset
  | .count => world.after .count
  | .caughtUpTo offset => world.after (.caughtUpTo offset)

/-- The world after a run of events. -/
def World.happened (events : List ReplicaEvent) : World := events.foldl World.happen {}

/-! ## What a replica should have heard -/

/-- Whether one replica is being followed, and what has been sent while it was. -/
structure Listening where
  registered : Bool := false
  heard : List Bytes := []

/-- What an event means for one replica. -/
def Listening.step (id : Nat) (listening : Listening) : ReplicaEvent → Listening
  | .add connection =>
    { listening with registered := listening.registered || connection == id }
  | .hangUp connection =>
    { listening with registered := listening.registered && connection != id }
  | .send command =>
    if listening.registered then
      { listening with heard := listening.heard ++ [command.encode] }
    else listening
  | _ => listening

def listening (id : Nat) (events : List ReplicaEvent) : Listening :=
  events.foldl (Listening.step id) {}

/-- The replica an event takes on. -/
def ReplicaEvent.taken : ReplicaEvent → List Nat
  | .add connection => [connection]
  | _ => []

/-- The replicas taken on, in the order in which they were. -/
def added (events : List ReplicaEvent) : List Nat := events.flatMap ReplicaEvent.taken

@[simp] theorem listening_concat (id : Nat) (events : List ReplicaEvent)
    (event : ReplicaEvent) :
    listening id (events ++ [event]) = (listening id events).step id event := by
  simp [listening]

@[simp] theorem happened_concat (events : List ReplicaEvent) (event : ReplicaEvent) :
    World.happened (events ++ [event]) = (World.happened events).happen event := by
  simp [World.happened]

@[simp] theorem added_concat (events : List ReplicaEvent) (event : ReplicaEvent) :
    added (events ++ [event]) = added events ++ event.taken := by
  simp [added]

/-- Nothing is sent to a replica before it is taken on. -/
theorem listening_of_not_added {id : Nat} {events : List ReplicaEvent}
    (unknown : id ∉ added events) : listening id events = {} := by
  induction events using List.reverseRecOn with
  | nil => rfl
  | append_singleton events event ih =>
    rw [added_concat, List.mem_append, not_or] at unknown
    rw [listening_concat, ih unknown.1]
    cases event with
    | add connection =>
      have other : connection ≠ id := fun same =>
        unknown.2 (by simp [ReplicaEvent.taken, same])
      simp [Listening.step, other]
    | _ => rfl

theorem not_added_of_nodup {events : List ReplicaEvent} {connection : Nat}
    (distinct : (added events ++ [connection]).Nodup) : connection ∉ added events :=
  fun known => List.disjoint_of_nodup_append distinct known (List.mem_singleton_self _)

/-- Of two replicas being followed, the later hears a suffix of what the earlier does. -/
theorem heard_nested (events : List ReplicaEvent) (distinct : (added events).Nodup) :
    (added events).Pairwise fun earlier later =>
      (listening earlier events).registered → (listening later events).registered →
        (listening later events).heard <:+ (listening earlier events).heard := by
  induction events using List.reverseRecOn with
  | nil => exact .nil
  | append_singleton events event ih =>
    rw [added_concat] at distinct ⊢
    have before := ih distinct.of_append_left
    simp only [listening_concat]
    cases event with
    | add connection =>
      have fresh := not_added_of_nodup distinct
      rw [List.pairwise_append]
      refine ⟨?_, List.pairwise_singleton _ _, ?_⟩
      · -- Those known before are not the one that is taken on.
        refine before.imp_of_mem ?_
        intro earlier later known alsoKnown nested
        have other : connection ≠ earlier := fun same => fresh (same ▸ known)
        have alsoOther : connection ≠ later := fun same => fresh (same ▸ alsoKnown)
        simpa [Listening.step, other, alsoOther] using nested
      · intro earlier known later isNew
        obtain rfl := List.mem_singleton.mp isNew
        simp [Listening.step, listening_of_not_added fresh]
    | send command =>
      simp only [ReplicaEvent.taken, List.append_nil]
      refine before.imp ?_
      intro earlier later nested earlierStays laterStays
      cases earlierIs : (listening earlier events).registered with
      | false => simp [Listening.step, earlierIs] at earlierStays
      | true =>
        cases laterIs : (listening later events).registered with
        | false => simp [Listening.step, laterIs] at laterStays
        | true =>
          obtain ⟨missed, isSuffix⟩ := nested earlierIs laterIs
          refine ⟨missed, ?_⟩
          simp [Listening.step, earlierIs, laterIs, ← isSuffix]
    | hangUp connection =>
      simp only [ReplicaEvent.taken, List.append_nil]
      refine before.imp ?_
      intro earlier later nested earlierStays laterStays
      simp only [Listening.step, Bool.and_eq_true] at earlierStays laterStays
      exact nested earlierStays.1 laterStays.1
    | _ => simpa [ReplicaEvent.taken, Listening.step] using before

/-! ## What the server has queued -/

theorem perform_send (env : Env) (world : World) (command : Value) :
    world.perform env (.send command) =
      .done
        { world with
          replicas := world.following.map fun replica =>
            { replica with changes := replica.changes ++ [command.encode] } }
        (if world.following.isEmpty then 0 else command.encode.length) := by
  simp only [World.perform]
  split
  · rename_i nobody
    rw [List.isEmpty_iff] at nobody
    simp [nobody]
  · rfl

theorem after_send (world : World) (command : Value) :
    world.after (.send command) =
      { world with
        replicas := world.following.map fun replica =>
          { replica with changes := replica.changes ++ [command.encode] } } := by
  rw [World.after, perform_send]

theorem mem_following {world : World} {replica : Replica} :
    replica ∈ world.following ↔ replica ∈ world.replicas ∧ replica.closed = false := by
  simp [World.following]

/-- The server has queued for each replica it holds what has been sent while that was
followed, and it holds each one that is. -/
structure World.Queued (world : World) (events : List ReplicaEvent) : Prop where
  known : ∀ replica ∈ world.replicas, replica.connection ∈ added events
  queue : ∀ replica ∈ world.replicas,
    listening replica.connection events = ⟨!replica.closed, replica.changes⟩
  held : ∀ id, (listening id events).registered →
    ∃ replica ∈ world.replicas, replica.connection = id

namespace World.Queued

variable {world : World} {events : List ReplicaEvent}

/-- A replica being followed is held open. -/
theorem isFollowed (queued : world.Queued events) {id : Nat}
    (registered : (listening id events).registered) :
    ∃ replica ∈ world.following, replica.connection = id := by
  obtain ⟨replica, member, rfl⟩ := queued.held id registered
  have isOpen : replica.closed = false := by
    simpa [queued.queue replica member] using registered
  exact ⟨replica, mem_following.mpr ⟨member, isOpen⟩, rfl⟩

/-- Looking at the replicas lets go of those that have hung up. -/
theorem look (queued : world.Queued events) {event : ReplicaEvent}
    (nobodyNew : event.taken = []) (nothing : ∀ id listening, Listening.step id listening event =
      listening) : World.Queued { world with replicas := world.following } (events ++ [event]) := by
  refine ⟨?_, ?_, ?_⟩
  · intro replica member
    rw [added_concat, nobodyNew, List.append_nil]
    exact queued.known replica (mem_following.mp member).1
  · intro replica member
    rw [listening_concat, nothing]
    exact queued.queue replica (mem_following.mp member).1
  · intro id registered
    rw [listening_concat, nothing] at registered
    exact queued.isFollowed registered

theorem add (queued : world.Queued events) {connection : Nat}
    (fresh : connection ∉ added events) :
    (world.takeOn connection).Queued (events ++ [.add connection]) := by
  refine ⟨?_, ?_, ?_⟩
  · intro replica member
    rw [added_concat, List.mem_append]
    rcases List.mem_append.mp member with old | isNew
    · exact .inl (queued.known replica old)
    · obtain rfl := List.mem_singleton.mp isNew
      exact .inr (List.mem_singleton_self _)
  · intro replica member
    rw [listening_concat]
    rcases List.mem_append.mp member with old | isNew
    · have other : connection ≠ replica.connection := fun same =>
        fresh (same ▸ queued.known replica old)
      simp [Listening.step, queued.queue replica old, other]
    · obtain rfl := List.mem_singleton.mp isNew
      simp [Listening.step, listening_of_not_added fresh]
  · intro id registered
    simp only [listening_concat, Listening.step, Bool.or_eq_true, beq_iff_eq] at registered
    rcases registered with old | rfl
    · obtain ⟨replica, member, isIt⟩ := queued.held id old
      exact ⟨replica, List.mem_append_left _ member, isIt⟩
    · exact ⟨_, List.mem_append_right _ (List.mem_singleton_self _), rfl⟩

theorem send (queued : world.Queued events) (command : Value) :
    (world.after (.send command)).Queued (events ++ [.send command]) := by
  rw [after_send]
  refine ⟨?_, ?_, ?_⟩
  · intro replica member
    obtain ⟨before, isFollowed, rfl⟩ := List.mem_map.mp member
    simpa [ReplicaEvent.taken] using queued.known before (mem_following.mp isFollowed).1
  · intro replica member
    obtain ⟨before, isFollowed, rfl⟩ := List.mem_map.mp member
    obtain ⟨member, isOpen⟩ := mem_following.mp isFollowed
    simp [Listening.step, queued.queue before member, isOpen]
  · intro id registered
    have before : (listening id events).registered := by
      rw [listening_concat, Listening.step] at registered
      split at registered
      · assumption
      · exact registered
    obtain ⟨replica, isFollowed, isIt⟩ := queued.isFollowed before
    exact ⟨_, List.mem_map_of_mem isFollowed, isIt⟩

/-- An event that changes the replicas one by one, and neither who they are nor what
they have been sent. -/
theorem each (queued : world.Queued events) {event : ReplicaEvent} {change : Replica → Replica}
    {later : World} (changed : later.replicas = world.replicas.map change)
    (nobodyNew : event.taken = [])
    (same : ∀ replica, (change replica).connection = replica.connection)
    (alike : ∀ replica, Listening.step replica.connection ⟨!replica.closed, replica.changes⟩
      event = ⟨!(change replica).closed, (change replica).changes⟩)
    (stays : ∀ id listening, (Listening.step id listening event).registered →
      listening.registered) : later.Queued (events ++ [event]) := by
  refine ⟨?_, ?_, ?_⟩
  · intro replica member
    rw [changed] at member
    obtain ⟨before, wasHeld, rfl⟩ := List.mem_map.mp member
    simpa [nobodyNew, same] using queued.known before wasHeld
  · intro replica member
    rw [changed] at member
    obtain ⟨before, wasHeld, rfl⟩ := List.mem_map.mp member
    rw [same, listening_concat, queued.queue before wasHeld, alike]
  · intro id registered
    rw [listening_concat] at registered
    obtain ⟨replica, member, isIt⟩ := queued.held id (stays id _ registered)
    rw [changed]
    exact ⟨_, List.mem_map_of_mem member, (same replica).trans isIt⟩

end World.Queued

theorem happened_queued (events : List ReplicaEvent) (distinct : (added events).Nodup) :
    (World.happened events).Queued events := by
  induction events using List.reverseRecOn with
  | nil => exact ⟨nofun, nofun, fun _ registered => by cases registered⟩
  | append_singleton events event ih =>
    rw [added_concat] at distinct
    have before := ih distinct.of_append_left
    rw [happened_concat]
    cases event with
    | add connection => exact before.add (not_added_of_nodup distinct)
    | send command => exact before.send command
    | hangUp connection =>
      refine before.each rfl rfl (fun _ => rfl) ?_ ?_
      · intro replica
        simp [Listening.step, Bool.not_or, bne, Bool.beq_comm]
      · intro id listening registered
        simp only [Listening.step, Bool.and_eq_true] at registered
        exact registered.1
    | reached connection offset =>
      exact before.each rfl rfl (fun _ => rfl) (fun _ => rfl) fun _ _ registered => registered
    | count | caughtUpTo _ => exact before.look rfl fun _ _ => rfl

end RedisServer
