import RedisServer.Concurrency.HangingUp
import RedisServer.Recovery.Owing

/-!
# What the connections owe

While connections take turns at writing, what each of them owes to be written down is told
by what has happened on it.  A client that waits for an element waits on the key it asked
for, and no two wait on the same end of a queue.
-/

namespace RedisServer

variable {id : Nat} {phases : Nat → Owing} {server : Server} {after world : World} {phase : Owing}
  {what : Happening} {before : State} {call : StoreCall} {reply : call.Reply}

/-! ## One connection -/

/-- How far a connection is with writing down what it has done. -/
def Happening.owing (server : Server) (phase : Owing) : Happening → Owing
  | .called _ call reply => Owing.next server phase call reply
  | _ => .free

/-- How far each connection is after all that has happened. -/
def phasesOf (server : Server) (history : List Moment) : Nat → Owing :=
  history.foldl (fun phases moment =>
    Function.update phases moment.id (moment.what.owing server (phases moment.id))) fun _ => .free

theorem phasesOf_concat (server : Server) (history : List Moment) (moment : Moment) :
    phasesOf server (history ++ [moment]) =
      Function.update (phasesOf server history) moment.id
        (moment.what.owing server (phasesOf server history moment.id)) := by
  simp [phasesOf]

/-! ## What stands in line -/

/-- Where what was done is written down. -/
inductive Ledger where
  | log
  | stream

namespace Ledger

/-- Whether a call writes something down. -/
def takes : Ledger → (call : Call) → call.Reply → Bool
  | .log, .record _, recorded => recorded
  | .stream, .send _, _ => true
  | _, _, _ => false

/-- What a connection has done and not yet written down. -/
def due : Ledger → Owing → Option Done
  | _, .recording done => some done
  | .stream, .sending done => some done
  | _, _ => none

@[simp] theorem due_free (ledger : Ledger) : ledger.due .free = none := by cases ledger <;> rfl

@[simp] theorem due_waiting (ledger : Ledger) (receiver : Nat) (key : Bytes) :
    ledger.due (.waiting receiver key) = none := by
  cases ledger <;> rfl

@[simp] theorem due_recording (ledger : Ledger) (done : Done) :
    ledger.due (.recording done) = some done := by
  cases ledger <;> rfl

/-- What has been done and not yet written down, once something more has happened.  What a
client was handed is the client's own from when it receives it. -/
def next (ledger : Ledger) (line : List (Owed Owner Done)) (moment : Moment) :
    List (Owed Owner Done) :=
  match moment.what with
  | .called _ (.store call) reply => line ++ moment.world.store.dues moment.id call reply
  | .called _ (.receive receiver _) (some _) =>
    line.map (Owed.handOver (.waiter receiver) (.connection moment.id))
  | .called _ call reply =>
    if ledger.takes call reply then withoutOwner (.connection moment.id) line else line
  | _ => line

/-- What has been done and not yet written down, in the order it was done. -/
def line (ledger : Ledger) (history : List Moment) : List (Owed Owner Done) :=
  history.foldl ledger.next []

theorem line_concat (ledger : Ledger) (history : List Moment) (moment : Moment) :
    ledger.line (history ++ [moment]) = ledger.next (ledger.line history) moment := by
  simp [line]

end Ledger

variable {ledger : Ledger} {line : List (Owed Owner Done)}

/-! ## Those who wait -/

/-- Whoever waits in the queue of a key is a connection that asked for an element of that key,
and no two wait on the same end. -/
structure Accounted (phases : Nat → Owing) (store : State) : Prop where
  tended : ∀ key, ∀ receiver ∈ store.queueAt key, store.oneshots[receiver]? = some .waiting →
    ∃ id, phases id = .waiting receiver key
  apart : ∀ id other receiver key another, phases id = .waiting receiver key →
    phases other = .waiting receiver another → id = other
  made : ∀ id receiver key, phases id = .waiting receiver key → receiver < store.handles

/-- After a turn that tells nobody to wait, whoever waits does so on another connection. -/
theorem waits_of_update {other receiver : Nat} {key : Bytes}
    (calm : ∀ receiver key, phase ≠ .waiting receiver key)
    (waits : Function.update phases id phase other = .waiting receiver key) :
    other ≠ id ∧ phases other = .waiting receiver key := by
  by_cases here : other = id
  · rw [here, Function.update_self] at waits
    exact absurd waits (calm receiver key)
  · rw [Function.update_of_ne here] at waits
    exact ⟨here, waits⟩

theorem update_waits {other receiver : Nat} {key : Bytes}
    (notHere : phases id ≠ .waiting receiver key) (waits : phases other = .waiting receiver key)
    (phase : Owing) : Function.update phases id phase other = .waiting receiver key := by
  rw [Function.update_of_ne, waits]
  rintro rfl
  exact notHere waits

/-- A turn that tells nobody to wait. -/
theorem Accounted.calm {after : State} (accounted : Accounted phases before)
    (calm : ∀ receiver key, phase ≠ .waiting receiver key)
    (queue : ∀ key, ∀ receiver ∈ after.queueAt key, receiver ∈ before.queueAt key)
    (waited : ∀ receiver : Nat, after.oneshots[receiver]? = some .waiting →
      before.oneshots[receiver]? = some .waiting ∧ ∀ key, phases id ≠ .waiting receiver key)
    (handles : before.handles ≤ after.handles) :
    Accounted (Function.update phases id phase) after := by
  have elsewhere {other receiver : Nat} {key : Bytes}
      (waits : Function.update phases id phase other = .waiting receiver key) :=
    (waits_of_update calm waits).2
  refine ⟨fun key receiver member waiting => ?_, fun other third receiver key another one two => ?_,
    fun other receiver key waits => ?_⟩
  · obtain ⟨earlier, notHere⟩ := waited receiver waiting
    obtain ⟨other, waits⟩ := accounted.tended key receiver (queue key receiver member) earlier
    exact ⟨other, update_waits (notHere key) waits phase⟩
  · exact accounted.apart other third receiver key another (elsewhere one) (elsewhere two)
  · exact (accounted.made other receiver key (elsewhere waits)).trans_le handles

theorem next_untold {server : Server} {phase : Owing} {call : StoreCall} {reply : call.Reply}
    (untold : call.toldToWait reply = none) (receiver : Nat) (key : Bytes) :
    Owing.next server phase (.store call) reply ≠ .waiting receiver key := by
  cases call with
  | on target op =>
    simp only [Owing.next]
    split <;> simp
  | blpop target =>
    rcases reply with _ | _ | receiver
    · simp [Owing.next]
    · simp [Owing.next]
    · cases untold
  | _ => simp [Owing.next]

/-- A call leaves those who wait accounted for. -/
theorem Accounted.stored {after : State} (accounted : Accounted phases before)
    (lined : before.Lined) (free : phases id = .free)
    (hands : State.Hands before after call reply) :
    Accounted (Function.update phases id (Owing.next server (phases id) (.store call) reply))
      after := by
  have notHere (receiver : Nat) (key : Bytes) : phases id ≠ .waiting receiver key := by simp [free]
  cases hands with
  | aside untold unpushed waiters oneshots handles =>
    refine accounted.calm (next_untold untold) ?_ ?_ handles
    · simp [State.queueAt, waiters]
    · exact fun receiver waiting => ⟨oneshots ▸ waiting, notHere receiver⟩
  | joined target queue oneshots handles =>
    -- the end just made is nobody else's
    have isNew {other receiver : Nat} {key : Bytes}
        (waits : Function.update phases id (.waiting before.handles target) other =
          .waiting receiver key) :
        (other = id ∧ receiver = before.handles) ∨
          (phases other = .waiting receiver key ∧ receiver < before.handles) := by
      by_cases here : other = id
      · rw [here, Function.update_self] at waits
        cases waits
        exact .inl ⟨here, rfl⟩
      · rw [Function.update_of_ne here] at waits
        exact .inr ⟨waits, accounted.made _ _ _ waits⟩
    have told : Owing.next server (phases id) (.store (.blpop target))
        (.ok (.waiting before.handles)) = .waiting before.handles target := by
      simp [Owing.next]
    rw [told]
    refine ⟨fun key receiver member waiting => ?_,
      fun other third receiver key another one two => ?_, fun other receiver key waits => ?_⟩
    · rcases queue key receiver member with old | ⟨rfl, rfl⟩
      · have different : receiver ≠ before.handles :=
          Nat.ne_of_lt (lined.made key receiver old)
        rw [oneshots, Map.lookup_insert, if_neg different] at waiting
        obtain ⟨other, waits⟩ := accounted.tended key receiver old waiting
        exact ⟨other, update_waits (notHere receiver key) waits _⟩
      · exact ⟨id, Function.update_self ..⟩
    · rcases isNew one with ⟨rfl, rfl⟩ | ⟨one, old⟩
      · rcases isNew two with ⟨rfl, -⟩ | ⟨-, old⟩
        · rfl
        · exact absurd old (lt_irrefl _)
      · rcases isNew two with ⟨-, rfl⟩ | ⟨two, -⟩
        · exact absurd old (lt_irrefl _)
        · exact accounted.apart _ _ _ _ _ one two
    · rcases isNew waits with ⟨-, rfl⟩ | ⟨-, old⟩
      · exact handles
      · exact old.trans handles
  | served target elements side length queue nodup waited handed handles =>
    refine accounted.calm (next_untold rfl) queue ?_ handles
    intro receiver waiting
    rw [handed] at waiting
    cases found : (before.handsOut target elements side).lookup receiver with
    | none => exact ⟨by simpa [found] using waiting, notHere receiver⟩
    | some element => simp [found] at waiting

/-! ## What each of them owes -/

/-- Each connection has in line what its phase says, and whoever was handed an element the pop
of it. -/
structure Reckoned (ledger : Ledger) (phases : Nat → Owing) (store : State)
    (line : List (Owed Owner Done)) : Prop where
  own : ∀ id, owedBy (.connection id) line =
    ((ledger.due (phases id)).map (Owed.mk (.connection id))).toList
  handed : ∀ id receiver key, phases id = .waiting receiver key →
    owedBy (.waiter receiver) line = ((handedTo store.oneshots receiver).map fun element =>
      (⟨.waiter receiver, .pop key element⟩ : Owed Owner Done)).toList
  nobody : ∀ receiver, (∀ id key, phases id ≠ .waiting receiver key) →
    owedBy (.waiter receiver) line = []

/-- Once nobody is in the middle of anything nothing is left in line. -/
theorem Reckoned.eq_nil {store : State}
    (reckoned : Reckoned ledger phases store line) (free : ∀ id, phases id = .free) :
    line = [] := by
  refine eq_nil_of_owedBy fun owner => ?_
  cases owner with
  | connection id => simp [reckoned.own, free]
  | waiter receiver => exact reckoned.nobody receiver (by simp [free])

/-- What a call owes on the connection that makes it is what the connection is left with. -/
theorem owedBy_dues_connection {server : Server} (ledger : Ledger) (phase : Owing) (state : State)
    {call : StoreCall} (timeless : call.Timeless) (reply : call.Reply) (id other : Nat) :
    owedBy (.connection other) (state.dues id call reply) =
      if other = id then ((ledger.due (Owing.next server phase (.store call) reply)).map
        (Owed.mk (.connection id))).toList
      else [] := by
  cases call with
  | on key op =>
    simp only [Owing.next]
    cases refused : op.refused reply with
    | true => simp [State.dues, refused]
    | false =>
      obtain ⟨rest, isDue, nothing⟩ := State.dues_on id state key timeless.1 refused
      rw [isDue, owedBy_cons, nothing]
      by_cases same : other = id
      · simp [same]
      · simp [same, Ne.symm same]
  | blpop key =>
    rcases reply with _ | element | receiver
    · simp [State.dues, Owing.next]
    · simp only [State.dues, Owing.next, owedBy_cons, owedBy_nil]
      by_cases same : other = id
      · simp [same]
      · simp [same, Ne.symm same]
    · simp [State.dues, Owing.next]
  | _ => exact timeless.elim

/-- Whoever is handed an element by a call comes to owe the pop of it, and nobody else who
waits owes anything for the call. -/
theorem State.Hands.owed {after : State} (hands : Hands before after call reply)
    (accounted : Accounted phases before) (id receiver : Nat) :
    (owedBy (.waiter receiver) (before.dues id call reply) = [] ∧
        (receiver < before.handles →
          handedTo after.oneshots receiver = handedTo before.oneshots receiver)) ∨
      ∃ other key element, phases other = .waiting receiver key ∧
        handedTo before.oneshots receiver = none ∧
        handedTo after.oneshots receiver = some element ∧
        owedBy (.waiter receiver) (before.dues id call reply) =
          [⟨.waiter receiver, .pop key element⟩] := by
  cases hands with
  | aside untold unpushed waiters oneshots handles =>
    exact .inl ⟨owedBy_dues_of_unpushed unpushed receiver, fun _ => by rw [oneshots]⟩
  | joined target queue oneshots handles =>
    refine .inl ⟨rfl, fun old => ?_⟩
    rw [handedTo, handedTo, oneshots, Map.lookup_insert, if_neg (Nat.ne_of_lt old)]
  | served target elements side length queue nodup waited handed handles =>
    rw [dues_push, owedBy_cons, if_neg (by simp), owedBy_pops nodup]
    cases found : (before.handsOut target elements side).lookup receiver with
    | none => exact .inl ⟨rfl, fun _ => by simp [handedTo, handed, found]⟩
    | some element =>
      have member : receiver ∈ (before.handsOut target elements side).map Prod.fst := by
        obtain ⟨earlier, later, isSplit, -⟩ := List.lookup_eq_some_iff.mp found
        simp [isSplit]
      obtain ⟨inQueue, waiting⟩ := waited receiver member
      obtain ⟨other, waits⟩ := accounted.tended target receiver inQueue waiting
      exact .inr ⟨other, target, element, waits, by simp [handedTo, waiting],
        by simp [handedTo, handed, found], rfl⟩

theorem Reckoned.stored {after : State}
    (reckoned : Reckoned ledger phases before line) (accounted : Accounted phases before)
    (free : phases id = .free) (timeless : call.Timeless)
    (hands : State.Hands before after call reply) :
    Reckoned ledger (Function.update phases id (Owing.next server (phases id) (.store call) reply))
      after (line ++ before.dues id call reply) := by
  refine ⟨fun other => ?_, fun other receiver key waits => ?_, fun receiver nobody => ?_⟩
  · rw [owedBy_append, reckoned.own,
      @owedBy_dues_connection server ledger (phases id) before call timeless reply id other]
    by_cases here : other = id
    · rw [here, Function.update_self, if_pos rfl, free]
      simp
    · rw [Function.update_of_ne here, if_neg here, List.append_nil]
  · rw [owedBy_append]
    by_cases here : other = id
    · -- only a client that has just been told to wait does so
      rw [here, Function.update_self] at waits
      cases hands with
      | aside untold unpushed waiters oneshots handles =>
        exact absurd waits (next_untold untold _ _)
      | served target elements side length queue nodup waited handed handles =>
        exact absurd waits
          (@next_untold _ _ (.on target (.push elements side)) (.ok length) rfl _ _)
      | joined target queue oneshots handles =>
        simp only [Owing.next] at waits
        cases waits
        rw [reckoned.nobody before.handles fun third another waits =>
          lt_irrefl _ (accounted.made third _ another waits)]
        simp [State.dues, handedTo, oneshots]
    · rw [Function.update_of_ne here] at waits
      rw [reckoned.handed other receiver key waits]
      rcases hands.owed accounted id receiver with
        ⟨nothing, same⟩ | ⟨third, another, element, waitsToo, unhanded, nowHanded, owed⟩
      · rw [nothing, List.append_nil, same (accounted.made other receiver key waits)]
      · obtain rfl := accounted.apart other third receiver key another waits waitsToo
        cases waits.symm.trans waitsToo
        rw [owed, unhanded, nowHanded]
        rfl
  · have unattended (other : Nat) (key : Bytes) : phases other ≠ .waiting receiver key :=
      fun waits => nobody other key (update_waits (by simp [free]) waits _)
    rw [owedBy_append, reckoned.nobody receiver unattended, List.nil_append]
    rcases hands.owed accounted id receiver with
      ⟨nothing, -⟩ | ⟨other, key, element, waits, -⟩
    · exact nothing
    · exact absurd waits (unattended other key)

/-- A turn of a connection that neither waits nor is told to. -/
theorem Reckoned.turn {store : State} {later : List (Owed Owner Done)}
    (reckoned : Reckoned ledger phases store line)
    (notHere : ∀ receiver key, phases id ≠ .waiting receiver key)
    (calm : ∀ receiver key, phase ≠ .waiting receiver key)
    (others : ∀ owner, owner ≠ .connection id → owedBy owner later = owedBy owner line)
    (own : owedBy (.connection id) later =
      ((ledger.due phase).map (Owed.mk (.connection id))).toList) :
    Reckoned ledger (Function.update phases id phase) store later := by
  refine ⟨fun other => ?_, fun other receiver key waits => ?_, fun receiver nobody => ?_⟩
  · by_cases here : other = id
    · rw [here, Function.update_self, own]
    · rw [Function.update_of_ne here, others _ (by simpa using here), reckoned.own]
  · rw [others _ (by simp)]
    exact reckoned.handed other receiver key (waits_of_update calm waits).2
  · rw [others _ (by simp)]
    exact reckoned.nobody receiver fun other key waits =>
      nobody other key (update_waits (notHere receiver key) waits phase)

/-- A client that receives an element owes the pop of it from then on. -/
theorem Reckoned.received {phases : Nat → Owing} {before after : State}
    {id receiver : Nat} {key element : Bytes}
    (reckoned : Reckoned ledger phases before line) (accounted : Accounted phases before)
    (waiting : phases id = .waiting receiver key)
    (handed : handedTo before.oneshots receiver = some element)
    (same : ∀ other, handedTo after.oneshots other = handedTo before.oneshots other) :
    Reckoned ledger (Function.update phases id (.recording (.pop key element))) after
      (line.map (Owed.handOver (.waiter receiver) (.connection id))) := by
  have mine := reckoned.own id
  rw [waiting, Ledger.due_waiting] at mine
  refine ⟨fun other => ?_, fun other third another waits => ?_, fun third nobody => ?_⟩
  · by_cases here : other = id
    · rw [here, Function.update_self, owedBy_handOver_right mine,
        reckoned.handed id receiver key waiting, handed]
      simp [Owed.handOver]
    · rw [Function.update_of_ne here, owedBy_handOver_of_ne (by simp) (by simpa using here),
        reckoned.own]
  · obtain ⟨elsewhere, waits⟩ := waits_of_update (by simp) waits
    have different : third ≠ receiver := by
      rintro rfl
      exact elsewhere (accounted.apart _ _ _ _ _ waits waiting)
    rw [owedBy_handOver_of_ne (by simpa using different) (by simp), same]
    exact reckoned.handed other third another waits
  · by_cases isReceiver : third = receiver
    · rw [isReceiver]
      exact owedBy_handOver_left (by simp)
    · rw [owedBy_handOver_of_ne (by simpa using isReceiver) (by simp)]
      exact reckoned.nobody third fun other another waits =>
        nobody other another (update_waits (by simp [waiting, Ne.symm isReceiver]) waits _)

/-- A client that gives up waiting owes nothing. -/
theorem Reckoned.gaveUp {after : State}
    {receiver : Nat} {key : Bytes} (reckoned : Reckoned ledger phases before line)
    (waiting : phases id = .waiting receiver key)
    (unhanded : handedTo before.oneshots receiver = none)
    (same : ∀ other, handedTo after.oneshots other = handedTo before.oneshots other) :
    Reckoned ledger (Function.update phases id .free) after line := by
  refine ⟨fun other => ?_, fun other third another waits => ?_, fun third nobody => ?_⟩
  · by_cases here : other = id
    · rw [here, Function.update_self, reckoned.own, waiting, Ledger.due_waiting, Ledger.due_free]
    · rw [Function.update_of_ne here, reckoned.own]
  · rw [same]
    exact reckoned.handed other third another (waits_of_update (by simp) waits).2
  · by_cases isReceiver : third = receiver
    · rw [isReceiver, reckoned.handed id receiver key waiting, unhanded]
      rfl
    · exact reckoned.nobody third fun other another waits =>
        nobody other another (update_waits (by simp [waiting, Ne.symm isReceiver]) waits _)

/-! ## A replica that is followed -/

/-- A replica that is being followed, the first of all, and what has been queued for it. -/
def World.Follows (world : World) (id : Nat) (changes : List Bytes) : Prop :=
  ∃ replica others, world.replicas = replica :: others ∧ replica.connection = id ∧
    replica.closed = false ∧ replica.changes = changes

namespace World.Follows

variable {other : Nat} {changes : List Bytes}

theorem congr (follows : world.Follows id changes) (same : after.replicas = world.replicas) :
    after.Follows id changes := by
  rwa [World.Follows, same]

theorem queue (follows : world.Follows id changes) : world.queue id = changes := by
  obtain ⟨replica, others, isFirst, isId, -, isQueue⟩ := follows
  simp [World.queue, isFirst, isId, isQueue]

/-- Something about the replicas changes. -/
theorem map (follows : world.Follows id changes) {change : Replica → Replica} {later : List Bytes}
    (changed : after.replicas = world.replicas.map change)
    (each : ∀ replica, replica.connection = id → replica.closed = false →
      replica.changes = changes → (change replica).connection = id ∧
        (change replica).closed = false ∧ (change replica).changes = later) :
    after.Follows id later := by
  obtain ⟨replica, others, isFirst, isId, isOpen, isQueue⟩ := follows
  refine ⟨change replica, others.map change, ?_, each replica isId isOpen isQueue⟩
  rw [changed, isFirst, List.map_cons]

theorem reached (follows : world.Follows id changes) (other offset : Nat) :
    (world.reached other offset).Follows id changes :=
  follows.map rfl fun _ isId isOpen isQueue => ⟨isId, isOpen, isQueue⟩

theorem letGo (follows : world.Follows id changes) (different : id ≠ other) :
    (world.letGo other).Follows id changes :=
  follows.map rfl fun _ isId isOpen isQueue =>
    ⟨isId, by simp [isOpen, isId, different], isQueue⟩

theorem following (follows : world.Follows id changes) :
    ({ world with replicas := world.following } : World).Follows id changes := by
  obtain ⟨replica, others, isFirst, isId, isOpen, isQueue⟩ := follows
  refine ⟨replica, others.filter fun replica => !replica.closed, ?_, isId, isOpen, isQueue⟩
  simp only [World.following, isFirst]
  rw [List.filter_cons_of_pos (by simp [isOpen])]

theorem sent (follows : world.Follows id changes) {env : Env} {command : Value} {bytes : Nat}
    (performed : world.perform env (.send command) = .done after bytes) :
    after.Follows id (changes ++ [command.encode]) := by
  rw [perform_send] at performed
  cases performed
  exact follows.following.map rfl fun _ isId isOpen isQueue => ⟨isId, isOpen, by rw [isQueue]⟩

end World.Follows

/-! ## What is written down -/

/-- What a connection owes does, when its turn has come, what it did when it was done. -/
theorem Reckoned.write {phases : Nat → Owing} {store : State}
    {id : Nat} {done : Done} {written contents : Keyspace}
    (reckoned : Reckoned ledger phases store line) (owes : ledger.due (phases id) = some done)
    (turn : Done.effects.inTurn (.connection id) line = true)
    (behind : Done.effects.Behind written contents line) :
    Done.effects.fits done (written done.key) ∧
      Done.effects.Behind (Done.effects.apply written done) contents
        (withoutOwner (.connection id) line) := by
  have only := reckoned.own id
  rw [owes] at only
  exact behind.write only turn

/-- What a turn may add to what is written down. -/
def Ledger.Adds (id : Nat) (before after : World) (what : Happening) (more : List (List Bytes)) :
    Ledger → Prop
  | .log => after.log = before.log ++ encodeAll (more.map asCommand)
  | .stream => ∀ other changes, (other = id → what ≠ .hungUp) → before.Follows other changes →
      after.Follows other (changes ++ more.map fun words => (asCommand words).encode)

theorem Ledger.adds_nothing (ledger : Ledger) {before : World} (log : after.log = before.log)
    (replicas : ∀ other changes, (other = id → what ≠ .hungUp) → before.Follows other changes →
      after.Follows other changes) : ledger.Adds id before after what [] := by
  cases ledger with
  | log => simpa [Adds, encodeAll_eq_flatMap] using log
  | stream => simpa [Adds] using replicas

/-! ## A turn -/

variable [Platform]

/-- What a turn may be on a connection that only writes and pops. -/
inductive Turned (server : Server) (id : Nat) (phase : Owing) (before after : World) :
    Happening → Prop where
  | stored {env : Env} {call : StoreCall} {reply : call.Reply} (free : phase = .free)
      (timeless : call.Timeless)
      (performed : before.store.perform env.clock call = some (after.store, reply))
      (log : after.log = before.log) (replicas : after.replicas = before.replicas) :
      Turned server id phase before after (.called env (.store call) reply)
  | received {env : Env} {receiver : Nat} {mayTimeOut : Bool} {reply : Option Bytes} (key : Bytes)
      (waiting : phase = .waiting receiver key)
      (handed : reply = handedTo before.store.oneshots receiver)
      (waiters : after.store.waiters = before.store.waiters)
      (entries : after.store.entries = before.store.entries)
      (handles : after.store.handles = before.store.handles)
      (same : ∀ other, handedTo after.store.oneshots other = handedTo before.store.oneshots other)
      (waited : ∀ other : Nat, after.store.oneshots[other]? = some .waiting →
        before.store.oneshots[other]? = some .waiting ∧ other ≠ receiver)
      (log : after.log = before.log) (replicas : after.replicas = before.replicas) :
      Turned server id phase before after (.called env (.receive receiver mayTimeOut) reply)
  | recorded {env : Env} {words : List Bytes} {recorded : Bool} (done : Done)
      (owes : phase = .recording done) (noted : done.NotedAs words)
      (appended : env.append = none →
        recorded = true ∧ after.log = before.log ++ (asCommand words).encode)
      (store : after.store = before.store) (replicas : after.replicas = before.replicas) :
      Turned server id phase before after (.called env (.record (asCommand words)) recorded)
  | sent {env : Env} {words : List Bytes} {bytes : Nat} (done : Done)
      (owes : phase = .sending done) (noted : done.NotedAs words)
      (queued : ∀ other changes, before.Follows other changes →
        after.Follows other (changes ++ [(asCommand words).encode]))
      (store : after.store = before.store) (log : after.log = before.log) :
      Turned server id phase before after (.called env (.send (asCommand words)) bytes)
  | aside {what : Happening} (free : phase = .free) (still : what.owing server phase = .free)
      (unmoved : ∀ (ledger : Ledger) line, ledger.next line ⟨id, before, what⟩ = line)
      (store : after.store = before.store) (log : after.log = before.log)
      (replicas : ∀ other changes, (other = id → what ≠ .hungUp) →
        before.Follows other changes → after.Follows other changes) :
      Turned server id phase before after what

/-- A connection that only writes and pops owes what its phase says. -/
def Stage.Owes (server : Server) (phase : Owing) : Stage → Prop
  | .idle client => client.Ordinary ∧ phase = .free
  | .running _ program => ∃ client, client.Ordinary ∧ program.Keeps (owing server)
      (fun phase answered => phase = .free ∧ ∃ reply, answered = (.reply reply, client)) phase
  | .handingOver _ => False
  | .following _ => phase = .free
  | .gone => phase = .free

/-- What a call may be on a connection that only writes and pops. -/
theorem Turned.of_call {env : Env} {call : Call} {reply : call.Reply}
    (allows : (owing server).allows phase call)
    (performed : world.perform env call = .done after reply) :
    Turned server id phase world after (.called env call reply) := by
  have framed := perform_framed performed
  cases call with
  | store call =>
    cases phase with
    | free =>
      cases perform_stored performed with
      | asked held =>
        exact .stored rfl allows held (framed.log rfl) (framed.replicas rfl).1
      | aside notAsked => cases notAsked
    | _ => exact allows.elim
  | receive receiver mayTimeOut =>
    cases phase with
    | waiting other key =>
      obtain rfl : receiver = other := allows
      have notStore (asked : StoreCall) : Call.receive receiver mayTimeOut ≠ .store asked :=
        fun isStore => by cases isStore
      obtain ⟨waiters, handles, each⟩ := perform_unhanded notStore performed
      refine .received key rfl ?_ waiters (perform_entries notStore performed).1 handles
        (fun other => (each other).1) (fun other waiting => ?_) (framed.log rfl)
        (framed.replicas rfl).1
      · simp only [World.perform] at performed
        split at performed
        · rename_i element handed
          cases performed
          simp [handedTo, handed]
        · rename_i waiting
          split at performed <;> cases performed
          simp [handedTo, waiting]
        · rename_i notHanded notWaiting
          cases performed
          rw [handedTo]
          split
          · rename_i isHanded
            exact absurd isHanded (notHanded _)
          · rfl
      · obtain ⟨waited, notHere⟩ := (each other).2.2 waiting
        exact ⟨waited, fun same => notHere mayTimeOut (same ▸ rfl)⟩
    | _ => exact allows.elim
  | record written =>
    cases phase with
    | recording done =>
      obtain ⟨words, rfl, noted⟩ := allows
      refine .recorded done rfl noted (fun goesThrough => ?_) (framed.store rfl)
        (framed.replicas rfl).1
      simp only [World.perform, goesThrough] at performed
      cases performed
      exact ⟨rfl, rfl⟩
    | _ => exact allows.elim
  | send written =>
    cases phase with
    | sending done =>
      obtain ⟨words, rfl, noted⟩ := allows
      exact .sent done rfl noted (fun other changes follows => follows.sent performed)
        (framed.store rfl) (framed.log rfl)
    | _ => exact allows.elim
  | advance bytes =>
    cases phase with
    | free =>
      cases performed
      exact .aside rfl rfl (fun ledger line => by cases ledger <;> rfl) rfl rfl
        fun _ _ _ follows => follows
    | _ => exact allows.elim
  | _ => cases phase <;> exact allows.elim

/-- Nothing such a connection calls panics. -/
theorem perform_ne_panicked {env : Env} {call : Call} (proper : world.store.Proper)
    (allows : (owing server).allows phase call) :
    world.perform env call ≠ .panicked after := by
  intro panicked
  cases call with
  | store call =>
    cases phase with
    | free =>
      simp only [World.perform] at panicked
      split at panicked
      · cases panicked
      · rename_i stuck
        exact State.perform_ne_none proper allows _ stuck
    | _ => exact allows.elim
  | receive receiver mayTimeOut | record written | send written =>
    simp only [World.perform] at panicked
    repeat' split at panicked
    all_goals cases panicked
  | advance bytes => cases panicked
  | _ => cases phase <;> exact allows.elim

/-- What a turn is on a connection that only writes and pops, and what it leaves it with. -/
theorem Stage.Owes.moves {stage moved : Stage} {move : Move} (owes : stage.Owes server phase)
    (recording : server.recording) (proper : world.store.Proper)
    (asks : ∀ value, move = .ask value → value.WritesOrPops)
    (moves : Stage.Moves server id world stage move moved after what) :
    Turned server id phase world after what ∧ moved.Owes server (what.owing server phase) := by
  have aside {happened : Happening} (free : phase = .free)
      (still : happened.owing server phase = .free)
      (unmoved : ∀ (ledger : Ledger) line, ledger.next line ⟨id, world, happened⟩ = line)
      {later : World} (store : later.store = world.store) (log : later.log = world.log)
      (replicas : later.replicas = world.replicas) :
      Turned server id phase world later happened :=
    .aside free still unmoved store log fun _ _ _ follows => follows.congr replicas
  cases moves with
  | ask client value =>
    obtain ⟨ordinary, free⟩ := owes
    exact ⟨aside free rfl (fun _ _ => rfl) rfl rfl rfl,
      client, ordinary, run_owing recording ordinary (asks value rfl)⟩
  | hear client waiting =>
    exact ⟨aside owes.2 rfl (fun _ _ => rfl) rfl rfl rfl, owes.1, rfl⟩
  | leave client => exact ⟨aside owes.2 rfl (fun _ _ => rfl) rfl rfl rfl, rfl⟩
  | call performed =>
    obtain ⟨client, ordinary, allows, rest⟩ := owes
    exact ⟨.of_call allows performed, client, ordinary, rest _⟩
  | @panic asked request resume env _ performed =>
    obtain ⟨client, ordinary, allows, -⟩ := owes
    exact absurd performed (perform_ne_panicked proper allows)
  | answer asked value client =>
    obtain ⟨other, ordinary, free, reply, isReply⟩ := owes
    cases isReply
    exact ⟨aside free rfl (fun _ _ => rfl) rfl rfl rfl, ordinary, rfl⟩
  | handOver asked value client =>
    obtain ⟨other, ordinary, free, reply, isReply⟩ := owes
    cases isReply
  | fail asked answered =>
    obtain ⟨other, ordinary, free, reply, isReply⟩ := owes
    exact ⟨aside free rfl (fun _ _ => rfl) rfl rfl rfl, rfl⟩
  | takeOn agreement => exact owes.elim
  | takeIn queued takesIn => exact ⟨aside owes rfl (fun _ _ => rfl) rfl rfl rfl, rfl⟩
  | report first =>
    exact ⟨.aside owes rfl (fun _ _ => rfl) rfl rfl fun _ _ _ follows => follows.reached _ _, rfl⟩
  | lose follower =>
    refine ⟨.aside owes rfl (fun _ _ => rfl) rfl rfl fun other changes stays follows => ?_, rfl⟩
    have different : other ≠ id := fun same => stays same rfl
    exact (follows.letGo different).congr rfl

section

variable {before : World} (turned : Turned server id (phases id) before after what)
  (proper : before.store.Proper) (lined : before.store.Lined)
  (called : ∀ env call reply, what = .called env (.store call) reply → call.Proper)

include turned proper lined called

theorem Turned.accounted (accounted : Accounted phases before.store) :
    Accounted (Function.update phases id (what.owing server (phases id))) after.store := by
  have same {phase : Owing} (calm : ∀ receiver key, phase ≠ .waiting receiver key)
      (notHere : ∀ receiver key, phases id ≠ .waiting receiver key)
      (store : after.store = before.store) :
      Accounted (Function.update phases id phase) after.store := by
    rw [store]
    exact accounted.calm calm (fun _ _ member => member)
      (fun receiver waiting => ⟨waiting, notHere receiver⟩) le_rfl
  cases turned with
  | stored free timeless performed log replicas =>
    exact accounted.stored lined free
      (State.perform_hands proper lined (called _ _ _ rfl) performed)
  | @received env receiver mayTimeOut reply key waiting handed waiters entries handles unhanded
      waited log replicas =>
    refine accounted.calm ?_ (by simp [State.queueAt, waiters]) (fun other isWaiting => ?_)
      handles.ge
    · rw [Happening.owing, waiting]
      cases reply <;> simp [Owing.next]
    · obtain ⟨earlier, different⟩ := waited other isWaiting
      refine ⟨earlier, fun another waits => different ?_⟩
      rw [waiting] at waits
      cases waits
      rfl
  | @recorded env words recorded done owes noted appended store replicas =>
    refine same ?_ (by simp [owes]) store
    rw [Happening.owing, owes]
    cases recorded
    · simp [Owing.next]
    · simp only [Owing.next]
      split <;> simp
  | sent done owes noted queued store log =>
    refine same ?_ (by simp [owes]) store
    rw [Happening.owing, owes]
    simp [Owing.next]
  | aside free still unmoved store log replicas =>
    exact same (by simp [still]) (by simp [free]) store

/-- What a turn makes of what each connection owes. -/
theorem Turned.reckoned (accounted : Accounted phases before.store)
    (appends : ∀ env written recorded, what = .called env (.record written) recorded →
      env.append = none) (master : ledger = .stream → server.config.replicaof = none)
    (reckoned : Reckoned ledger phases before.store line) :
    Reckoned ledger (Function.update phases id (what.owing server (phases id))) after.store
      (ledger.next line ⟨id, before, what⟩) := by
  -- what is written down leaves the line, and nothing else does
  have written {phase : Owing} (notHere : ∀ receiver key, phases id ≠ .waiting receiver key)
      (calm : ∀ receiver key, phase ≠ .waiting receiver key) (paid : ledger.due phase = none) :
      Reckoned ledger (Function.update phases id phase) before.store
        (withoutOwner (.connection id) line) := by
    refine reckoned.turn notHere calm (fun owner different => ?_) ?_
    · rw [owedBy_withoutOwner, if_neg different]
    · rw [owedBy_withoutOwner, if_pos rfl, paid]
      rfl
  have unwritten {phase : Owing} (notHere : ∀ receiver key, phases id ≠ .waiting receiver key)
      (calm : ∀ receiver key, phase ≠ .waiting receiver key)
      (same : ledger.due phase = ledger.due (phases id)) :
      Reckoned ledger (Function.update phases id phase) before.store line := by
    refine reckoned.turn notHere calm (fun _ _ => rfl) ?_
    rw [reckoned.own, same]
  cases turned with
  | stored free timeless performed log replicas =>
    exact reckoned.stored accounted free timeless
      (State.perform_hands proper lined (called _ _ _ rfl) performed)
  | @received env receiver mayTimeOut reply key waiting handed waiters entries handles same waited
      log replicas =>
    rw [Happening.owing, waiting]
    cases reply with
    | none =>
      have still : ledger.next line ⟨id, before, .called env (.receive receiver mayTimeOut) none⟩ =
          line := by
        cases ledger <;> rfl
      rw [still]
      exact reckoned.gaveUp waiting handed.symm same
    | some element => exact reckoned.received accounted waiting handed.symm same
  | @recorded env words recorded done owes noted appended store replicas =>
    obtain ⟨rfl, -⟩ := appended (appends _ _ _ rfl)
    have calm (receiver : Nat) (key : Bytes) :
        Owing.next server (.recording done) (.record (asCommand words)) true ≠
          .waiting receiver key := by
      simp only [Owing.next]
      split <;> simp
    rw [Happening.owing, owes, store]
    cases ledger with
    | log =>
      refine written (by simp [owes]) calm ?_
      simp only [Owing.next]
      split <;> rfl
    | stream =>
      refine unwritten (by simp [owes]) calm ?_
      simp only [Owing.next, master rfl, owes]
      rfl
  | sent done owes noted queued store log =>
    rw [Happening.owing, owes, store]
    cases ledger with
    | log => exact unwritten (by simp [owes]) (by simp [Owing.next]) (by rw [owes]; rfl)
    | stream => exact written (by simp [owes]) (by simp [Owing.next]) rfl
  | aside free still unmoved store log replicas =>
    rw [still, unmoved, store]
    exact unwritten (by simp [free]) (by simp) (by rw [free])

/-- A method that depends on no clock leaves no deadline where there was none. -/
theorem Turned.undated (undated : before.store.Undated) : after.store.Undated := by
  cases turned with
  | stored free timeless performed log replicas =>
    refine State.undated_of_contents (State.undated_of_does (State.perform_does proper undated
      lined (called _ _ _ rfl) timeless performed id) (State.dues_timeless timeless) ?_)
    intro key held found
    obtain ⟨entry, isEntry, rfl⟩ := Option.map_eq_some_iff.mp found
    exact undated key entry isEntry
  | received key waiting handed waiters entries handles same waited log replicas =>
    rw [State.Undated, entries]
    exact undated
  | recorded done owes noted appended store replicas => exact store ▸ undated
  | sent done owes noted queued store log => exact store ▸ undated
  | aside free still unmoved store log replicas => exact store ▸ undated

/-- As long as each connection waits for its turn before it writes down what it has done, what
is written lags behind the store by what stands in line. -/
theorem Turned.behind {written : Keyspace} (undated : before.store.Undated)
    (appends : ∀ env written recorded, what = .called env (.record written) recorded →
      env.append = none)
    (turn : ∀ env call reply, what = .called env call reply → ledger.takes call reply = true →
      Done.effects.inTurn (.connection id) line = true)
    (reckoned : Reckoned ledger phases before.store line)
    (behind : Done.effects.Behind written before.store.contents line) :
    ∃ more : List (List Bytes), (∀ words ∈ more, Replayable words) ∧
      ledger.Adds id before after what more ∧
      Done.effects.Behind (more.foldl (fun space words => carryWords ⟨0, 0⟩ words space) written)
        after.store.contents (ledger.next line ⟨id, before, what⟩) := by
  cases turned with
  | stored free timeless performed log replicas =>
    exact ⟨[], nofun, ledger.adds_nothing log fun _ _ _ follows => follows.congr replicas,
      behind.join (State.perform_does proper undated lined (called _ _ _ rfl) timeless performed
        id)⟩
  | @received env receiver mayTimeOut reply key waiting handed waiters entries handles same waited
      log replicas =>
    have contents : after.store.contents = before.store.contents := by
      funext key
      rw [State.contents, entries]
      rfl
    refine ⟨[], nofun, ledger.adds_nothing log fun _ _ _ follows => follows.congr replicas, ?_⟩
    rw [contents]
    cases reply with
    | none => cases ledger <;> exact behind
    | some element => exact behind.handOver _ _
  | @recorded env words recorded done owes noted appended store replicas =>
    obtain ⟨rfl, log⟩ := appended (appends _ _ _ rfl)
    rw [store]
    cases ledger with
    | log =>
      obtain ⟨-, written⟩ := reckoned.write (by rw [owes]; rfl) (turn _ _ _ rfl rfl) behind
      refine ⟨[words], by simpa using noted.replayable, ?_, ?_⟩
      · simpa [Ledger.Adds, encodeAll_eq_flatMap] using log
      · rw [← noted.carried] at written
        exact written
    | stream =>
      refine ⟨[], nofun, fun other changes _ follows => ?_, behind⟩
      simpa using follows.congr replicas
  | @sent env words bytes done owes noted queued store log =>
    rw [store]
    cases ledger with
    | log => exact ⟨[], nofun, by simpa [Ledger.Adds, encodeAll_eq_flatMap] using log, behind⟩
    | stream =>
      obtain ⟨-, written⟩ := reckoned.write (by rw [owes]; rfl) (turn _ _ _ rfl rfl) behind
      refine ⟨[words], by simpa using noted.replayable, ?_, ?_⟩
      · exact fun other changes _ => queued other changes
      · rw [← noted.carried] at written
        exact written
  | aside free still unmoved store log replicas =>
    refine ⟨[], nofun, ledger.adds_nothing log replicas, ?_⟩
    rw [store, unmoved]
    exact behind

end

end RedisServer
