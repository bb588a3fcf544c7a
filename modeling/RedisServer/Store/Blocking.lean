import RedisServer.Lib.Handover
import RedisServer.Store.Settled

/-!
# Blocking pops over whole runs

One key that only the commands on lists write to, among whatever happens to other keys.
What was pushed is in the list, in the reply of a pop or with a client that waited for
it; those waiting are served as if each push were made to a plain list they then pop
from, the longest waiting first; and nobody waits while there is a list.
-/

namespace RedisServer

variable {state : State} {version : Nat} {elements : List Bytes} {side : Side} {op : KeyOp}
  {target : Bytes} {clock : Clock}

/-! ## Serving a queue -/

/-- Whether the client at the other end still waits. -/
def waits (oneshots : Map Nat Oneshot) (client : Nat) : Bool :=
  oneshots[client]? = some .waiting

/-- The element a client has been handed. -/
def handedTo (oneshots : Map Nat Oneshot) (client : Nat) : Option Bytes :=
  match oneshots[client]? with
  | some (.handed element) => some element
  | _ => none

theorem serving_queue_suffix (oneshots : Map Nat Oneshot) (queue : List Nat)
    (list : List Bytes) : (serving oneshots queue list).queue <:+ queue := by
  induction queue generalizing oneshots list with
  | nil => exact List.suffix_refl _
  | cons waiter queue ih =>
    cases list with
    | nil => exact List.suffix_refl _
    | cons element list =>
      simp only [serving]
      split
      · exact (ih _ list).trans (List.suffix_cons waiter queue)
      · exact (ih _ _).trans (List.suffix_cons waiter queue)

/-- Serving a queue leaves everyone outside it alone, and only those who waited find
anything new. -/
theorem serving_frame (oneshots : Map Nat Oneshot) (queue : List Nat) (list : List Bytes)
    (client : Nat) (other : client ∉ queue ∨ waits oneshots client = false) :
    (serving oneshots queue list).oneshots[client]? = oneshots[client]? := by
  induction queue generalizing oneshots list with
  | nil => rfl
  | cons waiter queue ih =>
    cases list with
    | nil => rfl
    | cons element list =>
      simp only [serving]
      split
      · rename_i waiting
        have different : client ≠ waiter := by
          rintro rfl
          rcases other with absent | gone
          · exact absent List.mem_cons_self
          · simp [waits, waiting] at gone
        have kept : (oneshots.insert waiter (.handed element))[client]? =
            oneshots[client]? := by
          rw [Map.lookup_insert, if_neg different]
        rw [ih, kept]
        rcases other with absent | gone
        · exact .inl fun member => absent (List.mem_cons_of_mem _ member)
        · exact .inr (by simpa only [waits, kept] using gone)
      · apply ih
        rcases other with absent | gone
        · exact .inl fun member => absent (List.mem_cons_of_mem _ member)
        · exact .inr gone

/-- Serving a queue is handing the elements to those in it who still wait. -/
theorem serving_settle (oneshots : Map Nat Oneshot) {queue : List Nat} (nodup : queue.Nodup)
    (list : List Bytes) :
    let settled := Handover.settle (queue.filter (waits oneshots)) list
    let served := serving oneshots queue list
    served.list = settled.items ∧
      served.queue.filter (waits served.oneshots) = settled.waiting ∧
      ∀ client, served.oneshots[client]? =
        ((settled.served.lookup client).map Oneshot.handed).or oneshots[client]? := by
  induction queue generalizing oneshots list with
  | nil => simp [serving]
  | cons waiter queue ih =>
    cases list with
    | nil => simp [serving]
    | cons element list =>
      rw [List.nodup_cons] at nodup
      by_cases waiting : oneshots[waiter]? = some .waiting
      · have isWaiting : waits oneshots waiter := by simp [waits, waiting]
        have sameQueue : queue.filter (waits (oneshots.insert waiter (.handed element))) =
            queue.filter (waits oneshots) := by
          apply List.filter_congr
          intro other member
          have different : other ≠ waiter := fun same => nodup.1 (same ▸ member)
          simp [waits, Map.lookup_insert, different]
        obtain ⟨items, left, lookups⟩ :=
          ih (oneshots.insert waiter (.handed element)) nodup.2 list
        rw [sameQueue] at items left lookups
        simp only [serving, if_pos waiting, List.filter_cons_of_pos isWaiting,
          Handover.settle_cons]
        refine ⟨items, left, fun client => ?_⟩
        rw [lookups, Map.lookup_insert, List.lookup_cons]
        by_cases same : client = waiter
        · subst same
          have unserved : (Handover.settle (queue.filter (waits oneshots)) list).served.lookup
              client = none :=
            Handover.lookup_served_eq_none
              (fun member => nodup.1 (List.mem_of_mem_filter member)) list
          simp [unserved]
        · have unequal : (client == waiter) = false := by simpa using same
          simp [same, unequal]
      · have gone : ¬ waits oneshots waiter := by simpa [waits] using waiting
        simp only [serving, if_neg waiting, List.filter_cons_of_neg gone]
        exact ih oneshots nodup.2 (element :: list)

/-! ## What has become of one key -/

/-- A store, and what has happened at one key of it. -/
structure History where
  state : State := {}
  /-- Every element pushed. -/
  pushed : List Bytes := []
  /-- The elements pops were answered with. -/
  popped : List Bytes := []
  /-- Those told to wait, in the order they came. -/
  clients : List Nat := []

namespace History

/-- The list at the key. -/
def list (key : Bytes) (history : History) : List Bytes :=
  match history.state.entries[key]? with
  | some { data := .list list, .. } => list
  | _ => []

/-- Those queued on the key. -/
def queue (key : Bytes) (history : History) : List Nat :=
  history.state.waiters[key]?.getD []

/-- Those who still wait, the longest waiting first. -/
def waiting (history : History) : List Nat :=
  history.clients.filter (waits history.state.oneshots)

/-- The elements handed to those who waited. -/
def handed (history : History) : List Bytes :=
  history.clients.filterMap (handedTo history.state.oneshots)

/-- Takes down what a call came to, if it concerns the key. -/
def note (key : Bytes) (history : History) : (call : StoreCall) → call.Reply → History
  | .on target (.push elements _), .ok _ =>
    if target = key then { history with pushed := history.pushed ++ elements } else history
  | .on target (.lpop _), .ok taken =>
    if target = key then { history with popped := history.popped ++ taken } else history
  | .blpop target, .ok (.ready element) =>
    if target = key then { history with popped := history.popped ++ [element] } else history
  | .blpop target, .ok (.waiting receiver) =>
    if target = key then { history with clients := history.clients ++ [receiver] }
    else history
  | _, _ => history

/-- One event.  A client gives up only while it waits: one that has been handed its
element has been answered. -/
def step (key : Bytes) (history : History) : StoreEvent → History
  | .call clock call =>
    match history.state.perform clock call with
    | some (state, reply) => { history with state }.note key call reply
    | none => history
  | .giveUp receiver =>
    if waits history.state.oneshots receiver then
      { history with state := history.state.giveUp receiver }
    else history

/-- A run of the store, as seen at one key. -/
def run (key : Bytes) (events : List StoreEvent) : History := events.foldl (step key) {}

end History

/-- At this key, a call pushes, pops or looks; at others it does as it likes. -/
def StoreCall.OnlyLists (key : Bytes) : StoreCall → Prop
  | .on target op => op.Proper ∧ (target = key → op.writes = false ∨
      (∃ elements side, op = .push elements side) ∨ ∃ count, op = .lpop count)
  | _ => True

/-! ## The invariant of a run -/

namespace History

/-- What holds at the key at all times. -/
structure Orderly (key : Bytes) (history : History) : Prop where
  proper : history.state.Proper
  isList : ∃ version, history.state.entries[key]? = listEntry (history.list key) version
  made : ∀ receiver oneshot, history.state.oneshots[receiver]? = some oneshot →
    receiver < history.state.handles
  queued : ∀ target, ∀ waiter ∈ history.queue target, waiter < history.state.handles
  known : ∀ client ∈ history.clients, client < history.state.handles
  apart : ∀ client ∈ history.clients, ∀ other ≠ key, client ∉ history.queue other
  nodup : history.clients.Nodup
  inLine : (history.queue key).Sublist history.clients
  unmissed : (history.queue key).filter (waits history.state.oneshots) = history.waiting
  idle : history.list key ≠ [] → history.waiting = []
  balance : history.pushed.Perm (history.list key ++ history.popped ++ history.handed)

variable {key : Bytes} {history : History}

theorem list_of_listEntry {list : List Bytes}
    (held : history.state.entries[key]? = listEntry list version) :
    history.list key = list := by
  cases list with
  | nil => simp [History.list, held]
  | cons element list => simp [History.list, held]

theorem orderly_start (key : Bytes) : Orderly key {} where
  proper := State.proper_empty
  isList := ⟨0, by simp [History.list]⟩
  made := by simp
  queued := by simp [queue]
  known := by simp
  apart := by simp
  nodup := List.nodup_nil
  inLine := by simp [queue]
  unmissed := by simp [queue, waiting]
  idle := by simp [History.list]
  balance := by simp [History.list, handed]

/-- A list is there at any time. -/
theorem Orderly.live_eq (orderly : Orderly key history) (now : Instant) :
    history.state.live now key = history.state.entries[key]? := by
  obtain ⟨version, held⟩ := orderly.isList
  cases isList : history.list key with
  | nil => simp [State.live, held, isList, unexpired]
  | cons element list => simp [State.live, held, isList, unexpired, Entry.hasExpired]

/-- What a step that serves nobody at the key does to those who wait. -/
structure Aside (key : Bytes) (history : History) (state : State) : Prop where
  proper : state.Proper
  grown : history.state.handles ≤ state.handles
  made : ∀ (receiver : Nat) (oneshot : Oneshot), state.oneshots[receiver]? = some oneshot →
    receiver < state.handles
  queued : ∀ target : Bytes, ∀ waiter ∈ state.waiters[target]?.getD [], waiter < state.handles
  here : state.waiters[key]?.getD [] = history.queue key
  elsewhere : ∀ other : Bytes, other ≠ key → ∀ waiter ∈ state.waiters[other]?.getD [],
    waiter ∈ history.queue other ∨ history.state.handles ≤ waiter
  kept : ∀ client ∈ history.clients,
    state.oneshots[client]? = history.state.oneshots[client]?

/-- A pop takes what it is answered with off the front, and anything else leaves the list
as it was. -/
theorem Orderly.aside (orderly : Orderly key history) {state : State}
    (aside : Aside key history state) {taken rest : List Bytes} {version : Nat}
    (before : history.list key = taken ++ rest)
    (after : state.entries[key]? = listEntry rest version) :
    Orderly key { history with state, popped := history.popped ++ taken } := by
  have sameWaits (client : Nat) (member : client ∈ history.clients) :
      waits state.oneshots client = waits history.state.oneshots client := by
    simp only [waits, aside.kept client member]
  have sameWaiting : History.waiting { history with state, popped := history.popped ++ taken } =
      history.waiting := List.filter_congr sameWaits
  have sameHanded : History.handed { history with state, popped := history.popped ++ taken } =
      history.handed := by
    apply List.filterMap_congr
    intro client member
    simp only [handedTo, aside.kept client member]
  have isRest : History.list key { history with state, popped := history.popped ++ taken } =
      rest := list_of_listEntry after
  have sameQueue : History.queue key { history with state, popped := history.popped ++ taken } =
      history.queue key := aside.here
  refine
    { proper := aside.proper, made := aside.made, queued := aside.queued
      nodup := orderly.nodup
      isList := ⟨version, by rw [isRest]; exact after⟩
      known := fun client member => (orderly.known client member).trans_le aside.grown
      apart := ?_, inLine := ?_, unmissed := ?_, idle := ?_, balance := ?_ }
  · intro client member other different found
    rcases aside.elsewhere other different client found with earlier | fresh
    · exact orderly.apart client member other different earlier
    · exact absurd (orderly.known client member) (Nat.not_lt.mpr fresh)
  · rw [sameQueue]
    exact orderly.inLine
  · rw [sameQueue, sameWaiting, ← orderly.unmissed]
    exact List.filter_congr fun waiter member =>
      sameWaits waiter (orderly.inLine.subset member)
  · rw [isRest, sameWaiting]
    intro left
    exact orderly.idle (by simp [before, left])
  · rw [isRest, sameHanded]
    refine orderly.balance.trans ?_
    rw [before]
    refine List.Perm.append_right _ ?_
    have swapped : (taken ++ rest).Perm (rest ++ taken) := List.perm_append_comm
    refine (swapped.append_right history.popped).trans ?_
    rw [List.append_assoc]
    exact List.perm_append_comm.append_left rest

/-- Whoever was not waiting for an element here is left alone by a step that changes
nothing about those waiting. -/
theorem Orderly.aside_of_same (orderly : Orderly key history) (proper : state.Proper)
    (waiters : state.waiters = history.state.waiters)
    (oneshots : state.oneshots = history.state.oneshots)
    (handles : history.state.handles ≤ state.handles) : Aside key history state where
  proper := proper
  grown := handles
  made receiver oneshot found :=
    (orderly.made receiver oneshot (oneshots ▸ found)).trans_le handles
  queued target waiter member := by
    rw [waiters] at member
    exact (orderly.queued target waiter member).trans_le handles
  here := by rw [waiters, queue]
  elsewhere other _ waiter member := by
    rw [waiters] at member
    exact .inl member
  kept client _ := by rw [oneshots]

/-- A client that waits gives up. -/
theorem Orderly.giveUp (orderly : Orderly key history) {receiver : Nat}
    (waiting : waits history.state.oneshots receiver) :
    Orderly key { history with state := history.state.giveUp receiver } := by
  have wasWaiting : history.state.oneshots[receiver]? = some .waiting := by
    simpa [waits] using waiting
  have nowWaits (clients : List Nat) :
      clients.filter (waits (history.state.giveUp receiver).oneshots) =
        (clients.filter (waits history.state.oneshots)).filter (· ≠ receiver) := by
    rw [List.filter_filter]
    apply List.filter_congr
    intro client _
    simp only [waits, State.giveUp, Map.lookup_insert]
    by_cases same : client = receiver <;> simp [same]
  have sameHanded : handedTo (history.state.giveUp receiver).oneshots =
      handedTo history.state.oneshots := by
    funext client
    simp only [handedTo, State.giveUp, Map.lookup_insert]
    by_cases same : client = receiver
    · simp [same, wasWaiting]
    · simp [same]
  refine { orderly with made := ?_, unmissed := ?_, idle := ?_, balance := ?_, proper := ?_ }
  · exact ⟨orderly.proper.cells, orderly.proper.stamps⟩
  · intro other oneshot found
    by_cases same : other = receiver
    · exact same ▸ orderly.made receiver _ wasWaiting
    · simp only [State.giveUp, Map.lookup_insert, if_neg same] at found
      exact orderly.made other oneshot found
  · simp only [History.waiting, nowWaits]
    exact congrArg _ orderly.unmissed
  · intro held
    simp only [History.waiting, nowWaits]
    rw [show history.clients.filter (waits history.state.oneshots) = [] from orderly.idle held]
    rfl
  · simp only [handed, sameHanded]
    exact orderly.balance

/-- A client finds no list and is put at the back of the queue. -/
theorem Orderly.joined (orderly : Orderly key history) (proper : state.Proper)
    (absent : history.state.entries[key]? = none) (still : state.entries[key]? = none)
    (waiters : state.waiters = history.state.waiters.insert key
      ((history.queue key).filter
        (fun waiter => history.state.oneshots[waiter]? ≠ some .closed) ++
          [history.state.handles]))
    (oneshots : state.oneshots = history.state.oneshots.insert history.state.handles .waiting)
    (handles : state.handles = history.state.handles + 1) :
    Orderly key { history with state, clients := history.clients ++ [history.state.handles] } := by
  have oldList : history.list key = [] := by simp [History.list, absent]
  have newList : History.list key
      { history with state, clients := history.clients ++ [history.state.handles] } = [] := by
    simp [History.list, still]
  have lookups (client : Nat) : state.oneshots[client]? =
      if client = history.state.handles then some .waiting
      else history.state.oneshots[client]? := by
    rw [oneshots, Map.lookup_insert]
  have older (client : Nat) (member : client ∈ history.clients) :
      client ≠ history.state.handles := Nat.ne_of_lt (orderly.known client member)
  have sameWaits (client : Nat) (member : client ∈ history.clients) :
      waits state.oneshots client = waits history.state.oneshots client := by
    simp only [waits, lookups, if_neg (older client member)]
  have newWaits : waits state.oneshots history.state.handles := by
    simp [waits, lookups]
  have nowQueue (target : Bytes) : History.queue target
      { history with state, clients := history.clients ++ [history.state.handles] } =
      if target = key then (history.queue key).filter
        (fun waiter => history.state.oneshots[waiter]? ≠ some .closed) ++ [history.state.handles]
      else history.queue target := by
    simp only [queue, waiters, Map.lookup_insert]
    split <;> rfl
  refine
    { proper, isList := ⟨0, by rw [newList, still]; rfl⟩, made := ?_, queued := ?_, known := ?_
      apart := ?_, nodup := ?_, inLine := ?_, unmissed := ?_, idle := ?_, balance := ?_ }
  · intro receiver oneshot found
    rw [lookups] at found
    rw [handles]
    split at found
    · omega
    · exact Nat.lt_succ_of_lt (orderly.made receiver oneshot found)
  · intro target waiter member
    rw [nowQueue] at member
    rw [handles]
    split at member
    · rcases List.mem_append.mp member with earlier | isNew
      · exact Nat.lt_succ_of_lt (orderly.queued key waiter (List.mem_of_mem_filter earlier))
      · rw [List.mem_singleton.mp isNew]
        exact Nat.lt_succ_self _
    · exact Nat.lt_succ_of_lt (orderly.queued target waiter member)
  · intro client member
    rw [handles]
    rcases List.mem_append.mp member with earlier | isNew
    · exact Nat.lt_succ_of_lt (orderly.known client earlier)
    · rw [List.mem_singleton.mp isNew]
      exact Nat.lt_succ_self _
  · intro client member other different found
    rw [nowQueue, if_neg different] at found
    rcases List.mem_append.mp member with earlier | isNew
    · exact orderly.apart client earlier other different found
    · rw [List.mem_singleton.mp isNew] at found
      exact Nat.lt_irrefl _ (orderly.queued other _ found)
  · rw [List.nodup_append]
    refine ⟨orderly.nodup, List.nodup_singleton _, ?_⟩
    intro client member other isNew
    rw [List.mem_singleton.mp isNew]
    exact older client member
  · rw [nowQueue, if_pos rfl]
    exact (List.filter_sublist.trans orderly.inLine).append (List.Sublist.refl _)
  · have kept : ((history.queue key).filter
          (fun waiter => history.state.oneshots[waiter]? ≠ some .closed)).filter
          (waits state.oneshots) = history.waiting := by
      rw [List.filter_filter, ← orderly.unmissed]
      apply List.filter_congr
      intro waiter member
      rw [sameWaits waiter (orderly.inLine.subset member)]
      cases isWaiting : waits history.state.oneshots waiter with
      | false => rfl
      | true =>
        have found : history.state.oneshots[waiter]? = some .waiting := by
          simpa [waits] using isWaiting
        simp [found]
    rw [nowQueue, if_pos rfl, History.waiting, List.filter_append, List.filter_append, kept,
      List.filter_congr sameWaits]
    rfl
  · exact fun held => absurd newList held
  · have sameHanded : history.clients.filterMap (handedTo state.oneshots) = history.handed := by
      apply List.filterMap_congr
      intro client member
      simp only [handedTo, lookups, if_neg (older client member)]
    have nothing : handedTo state.oneshots history.state.handles = none := by
      simp [handedTo, lookups]
    rw [newList, handed, List.filterMap_append, sameHanded]
    have balance := orderly.balance
    rw [oldList] at balance
    simpa [nothing] using balance

theorem pushOnto_perm (side : Side) (elements list : List Bytes) :
    (pushOnto side elements list).Perm (list ++ elements) := by
  cases side with
  | right => exact List.Perm.refl _
  | left =>
    rw [State.pushOnto_left]
    exact ((List.reverse_perm elements).append_right list).trans List.perm_append_comm

/-- What is left and who has been handed what once the elements have been pushed onto a
plain list and those who wait have popped from it one by one, the longest waiting
first. -/
def afterPush (key : Bytes) (history : History) (elements : List Bytes) (side : Side) :
    Handover Bytes Nat :=
  Handover.settle history.waiting (pushOnto side elements (history.list key))

/-- A push to the key leaves the list, those waiting and what each has been handed as
pushing to a plain list would. -/
structure PushedAs (key : Bytes) (history : History) (elements : List Bytes) (side : Side)
    (after : State) : Prop where
  list : History.list key { history with state := after } =
    (history.afterPush key elements side).items
  waiting : History.waiting { history with state := after } =
    (history.afterPush key elements side).waiting
  handed : ∀ client, handedTo after.oneshots client =
    ((history.afterPush key elements side).served.lookup client).or
      (handedTo history.state.oneshots client)

theorem Orderly.served_lookup (orderly : Orderly key history)
    (served : State.Served key (pushOnto side elements (history.list key)) version
      history.state state) (client : Nat) :
    state.oneshots[client]? =
      (((history.afterPush key elements side).served.lookup client).map Oneshot.handed).or
        history.state.oneshots[client]? := by
  have settled := (serving_settle history.state.oneshots (orderly.inLine.nodup orderly.nodup)
    (pushOnto side elements (history.list key))).2.2 client
  rw [orderly.unmissed] at settled
  rw [served.oneshots]
  exact settled

theorem Orderly.pushedAs (orderly : Orderly key history)
    (served : State.Served key (pushOnto side elements (history.list key)) version
      history.state state) : PushedAs key history elements side state := by
  have lookups := orderly.served_lookup served
  have settled := (serving_settle history.state.oneshots (orderly.inLine.nodup orderly.nodup)
    (pushOnto side elements (history.list key))).1
  rw [orderly.unmissed] at settled
  refine ⟨?_, ?_, ?_⟩
  · have held := served.entries key
    rw [if_pos rfl] at held
    exact (list_of_listEntry held).trans settled
  · have nodup : history.waiting.Nodup := orderly.nodup.filter _
    rw [afterPush, ← Handover.filter_unserved nodup, History.waiting, History.waiting,
      List.filter_filter]
    apply List.filter_congr
    intro client _
    simp only [waits, lookups client, afterPush, History.waiting]
    cases List.lookup client (Handover.settle (history.clients.filter
        (waits history.state.oneshots)) (pushOnto side elements (history.list key))).served with
    | none => rfl
    | some element => rfl
  · intro client
    simp only [handedTo, lookups client]
    cases (history.afterPush key elements side).served.lookup client <;> simp

/-- Pushed elements go to the list and to those who wait for them. -/
theorem Orderly.push (orderly : Orderly key history) (proper : state.Proper)
    (served : State.Served key (pushOnto side elements (history.list key)) version
      history.state state) :
    Orderly key { history with state, pushed := history.pushed ++ elements } := by
  have lookups := orderly.served_lookup served
  have as := orderly.pushedAs served
  have served_waiting : (history.afterPush key elements side).served.map Prod.fst <+:
      history.waiting := ⟨_, Handover.settle_waiting _ _⟩
  have nowQueue (target : Bytes) : History.queue target
      { history with state, pushed := history.pushed ++ elements } =
      if target = key then (serving history.state.oneshots (history.queue key)
        (pushOnto side elements (history.list key))).queue else history.queue target :=
    served.waiters target
  have shorter (target : Bytes) : History.queue target
      { history with state, pushed := history.pushed ++ elements } <:+ history.queue target := by
    rw [nowQueue]
    split
    · rename_i same
      subst same
      exact serving_queue_suffix _ _ _
    · exact List.suffix_refl _
  refine
    { proper, isList := ?_, made := ?_, queued := ?_, known := ?_, apart := ?_
      nodup := orderly.nodup, inLine := ?_, unmissed := ?_, idle := ?_, balance := ?_ }
  · have held := served.entries key
    rw [if_pos rfl] at held
    refine ⟨version, ?_⟩
    rw [list_of_listEntry held]
    exact held
  · intro receiver oneshot found
    rw [served.handles]
    rw [lookups] at found
    cases handed : (history.afterPush key elements side).served.lookup receiver with
    | none =>
      rw [handed] at found
      exact orderly.made receiver oneshot found
    | some element =>
      obtain ⟨earlier, later, isServed, -⟩ := List.lookup_eq_some_iff.mp handed
      have member : receiver ∈ history.waiting :=
        served_waiting.subset (by simp [isServed])
      exact orderly.known receiver (List.mem_of_mem_filter member)
  · intro target waiter member
    rw [served.handles]
    exact orderly.queued target waiter ((shorter target).subset member)
  · intro client member
    rw [served.handles]
    exact orderly.known client member
  · intro client member other different found
    exact orderly.apart client member other different ((shorter other).subset found)
  · exact (shorter key).sublist.trans orderly.inLine
  · have settled := (serving_settle history.state.oneshots (orderly.inLine.nodup orderly.nodup)
      (pushOnto side elements (history.list key))).2.1
    rw [orderly.unmissed] at settled
    rw [nowQueue, if_pos rfl]
    refine Eq.trans ?_ (settled.trans as.waiting.symm)
    rw [served.oneshots]
    rfl
  · intro left
    exact as.waiting.trans (Handover.settle_idle _ _ (as.list ▸ left))
  · have shared : (History.handed { history with state, pushed := history.pushed ++ elements }).Perm
        (history.handed ++ (history.afterPush key elements side).served.map Prod.snd) := by
      have waited (client : Nat)
          (member : client ∈ (history.afterPush key elements side).served.map Prod.fst) :
          handedTo history.state.oneshots client = none := by
        have isWaiting : history.state.oneshots[client]? = some .waiting := by
          simpa [waits] using List.of_mem_filter (served_waiting.subset member)
        simp [handedTo, isWaiting]
      rw [History.handed, funext as.handed]
      exact Handover.filterMap_lookup_perm orderly.nodup
        (served_waiting.sublist.trans List.filter_sublist) waited
    have plain : ((history.afterPush key elements side).served.map Prod.snd ++ History.list key
        { history with state, pushed := history.pushed ++ elements }).Perm
        (history.list key ++ elements) := by
      refine (List.Perm.of_eq ?_).trans (pushOnto_perm side elements (history.list key))
      exact (congrArg _ as.list).trans (Handover.settle_items _ _)
    have balance := orderly.balance
    rw [List.perm_iff_count] at shared plain balance ⊢
    intro element
    have sharedOut := shared element
    have inAll := plain element
    have before := balance element
    simp only [List.count_append] at sharedOut inAll before ⊢
    omega

/-! ## One event, and all of them -/

theorem Orderly.unpopped (orderly : Orderly key history) (aside : Aside key history state)
    (entries : state.entries[key]? = history.state.entries[key]?) :
    Orderly key { history with state } := by
  obtain ⟨version, held⟩ := orderly.isList
  have same := orderly.aside aside (List.nil_append _).symm (entries.trans held)
  rwa [List.append_nil] at same

theorem Orderly.looked_entry (orderly : Orderly key history) (now : Instant) (target : Bytes) :
    (history.state.looked now target).entries[key]? = history.state.entries[key]? := by
  rw [State.looked_lookup]
  split
  · rename_i same
    rw [← same, orderly.live_eq]
  · rfl

theorem Orderly.cell_eq (orderly : Orderly key history) (now : Instant) :
    Cell.list ((history.state.live now key).map Entry.cell) = .ok (history.list key) := by
  obtain ⟨version, held⟩ := orderly.isList
  rw [orderly.live_eq, held]
  cases history.list key <;> rfl

theorem Orderly.push_ok (orderly : Orderly key history) (now : Instant) (elements : List Bytes)
    (side : Side) : ∃ length, (history.state.push now key elements side).2 = .ok length := by
  obtain ⟨version, held⟩ := orderly.isList
  have entry := State.opened_entry now history.state key (.list [])
  rw [orderly.live_eq, held] at entry
  unfold State.push
  cases isList : history.list key with
  | nil =>
    rw [isList] at entry
    simp [entry, Entry.new]
  | cons element list =>
    rw [isList] at entry
    simp [entry]

/-- What a push to the key is answered, and what it leaves. -/
theorem Orderly.push_served (orderly : Orderly key history) (clock : Clock)
    (nonempty : elements ≠ []) (side : Side) :
    (history.state.push clock.now key elements side).2 =
        .ok (pushOnto side elements (history.list key)).length ∧
      ∃ version, State.Served key (pushOnto side elements (history.list key)) version
        history.state (history.state.push clock.now key elements side).1 := by
  obtain ⟨length, isOk⟩ := orderly.push_ok clock.now elements side
  rcases State.push_spec nonempty side fun _ _ => State.live_undated orderly.proper with
    ⟨error, replied, -⟩ | ⟨old, isOld, replied, -, served⟩
  · cases replied.symm.trans isOk
  · obtain rfl : history.list key = old :=
      Except.ok.inj ((orderly.cell_eq clock.now).symm.trans isOld)
    exact ⟨replied, _, served⟩

/-- A pop from the key takes elements off the front of the list. -/
theorem Orderly.lpop_taken (orderly : Orderly key history) (now : Instant) (count : Nat) :
    ∃ taken rest version, (history.state.lpop now key count).2 = .ok taken ∧
      history.list key = taken ++ rest ∧
      (history.state.lpop now key count).1.entries[key]? = listEntry rest version := by
  obtain ⟨version, held⟩ := orderly.isList
  refine ⟨(history.list key).take count, (history.list key).drop count, ?_⟩
  have found : (history.state.looked now key).entries[key]? =
      listEntry (history.list key) version := by
    rw [State.looked_self, orderly.live_eq, held]
  unfold State.lpop
  cases isList : history.list key with
  | nil =>
    rw [isList] at found
    exact ⟨version, by simp [found], by simp, by simp [found]⟩
  | cons element list =>
    rw [isList] at found
    simp only [found, listEntry_cons]
    cases rest : (element :: list).drop count with
    | nil =>
      refine ⟨version, True.intro, by rw [← rest, List.take_append_drop], ?_⟩
      rw [if_pos List.isEmpty_nil, State.removed_lookup, if_pos rfl, listEntry_nil]
    | cons next left =>
      refine ⟨if !((element :: list).take count).isEmpty then history.state.changes + 1
        else version, True.intro, by rw [← rest, List.take_append_drop], ?_⟩
      rw [if_neg (by simp), State.stored_lookup, if_pos rfl, listEntry_cons]
      rfl

theorem note_of_looks (looks : op.writes = false) (target : Bytes) (reply : op.Reply) :
    history.note key (.on target op) reply = history := by
  cases op with
  | set | increment | push | lpop | xadd | zadd | zrem => cases looks
  | _ => rfl

theorem note_elsewhere (different : target ≠ key) (op : KeyOp) (reply : op.Reply) :
    history.note key (.on target op) reply = history := by
  cases op with
  | push _ _ | lpop _ => cases reply <;> simp [note, different]
  | _ => rfl

theorem Orderly.on_key (orderly : Orderly key history) (called : op.Proper)
    (only : op.writes = false ∨
      (∃ elements side, op = .push elements side) ∨ ∃ count, op = .lpop count) {reply : op.Reply}
    (performed : history.state.perform clock (.on key op) = some (state, reply)) :
    Orderly key (History.note key { history with state } (.on key op) reply) := by
  have proper : state.Proper :=
    orderly.proper.perform (show (StoreCall.on key op).Proper from called) performed
  rcases only with looks | ⟨elements, side, rfl⟩ | ⟨count, rfl⟩
  · have noPush : ∀ elements side, op ≠ .push elements side := by
      rintro elements side rfl
      cases looks
    obtain ⟨waiters, oneshots, handles⟩ := State.performOn_waiters noPush performed
    have same : state.entries[key]? = history.state.entries[key]? := by
      obtain ⟨cell, acted, stored | ⟨rfl, -⟩⟩ := (State.performOn_acts noPush performed).cell
      · rw [stored, KeyOp.act_of_looks looks acted, KeyOp.wrote_of_looks looks,
          stamp_kept, orderly.live_eq]
      · rfl
    rw [note_of_looks looks]
    exact orderly.unpopped (orderly.aside_of_same proper waiters oneshots handles.ge) same
  · obtain ⟨replied, version, served⟩ := orderly.push_served clock called side
    simp only [State.perform, State.performOn, Option.some.injEq] at performed
    rw [performed] at replied served
    simp only at replied served
    subst replied
    simp only [note, if_true]
    exact orderly.push proper served
  · obtain ⟨taken, rest, version, replied, before, after⟩ := orderly.lpop_taken clock.now count
    obtain ⟨waiters, oneshots, handles⟩ := @State.performOn_waiters clock history.state state key
      (.lpop count) reply (by simp) performed
    simp only [State.perform, State.performOn, Option.some.injEq] at performed
    rw [performed] at replied after
    simp only at replied after
    subst replied
    simp only [note, if_true]
    exact orderly.aside (orderly.aside_of_same proper waiters oneshots handles.ge) before after

theorem Orderly.elsewhere (orderly : Orderly key history) (different : target ≠ key)
    (called : op.Proper) {reply : op.Reply}
    (performed : history.state.perform clock (.on target op) = some (state, reply)) :
    Orderly key (History.note key { history with state } (.on target op) reply) := by
  have proper : state.Proper :=
    orderly.proper.perform (show (StoreCall.on target op).Proper from called) performed
  rw [note_elsewhere different]
  by_cases push : ∃ elements side, op = .push elements side
  · obtain ⟨elements, side, rfl⟩ := push
    simp only [State.perform, State.performOn, Option.some.injEq] at performed
    rcases State.push_spec called side fun _ _ => State.live_undated orderly.proper with
      ⟨error, replied, acts, oneshots, waiters, handles⟩ | ⟨old, -, replied, -, served⟩
    · rw [performed] at acts oneshots waiters handles
      exact orderly.unpopped (orderly.aside_of_same proper waiters oneshots handles.ge)
        (acts.frame key (Ne.symm different))
    · rw [performed] at served
      have shorter (other : Bytes) : state.waiters[other]?.getD [] <:+ history.queue other := by
        rw [served.waiters]
        split
        · rename_i same
          subst same
          exact serving_queue_suffix _ _ _
        · exact List.suffix_refl _
      refine orderly.unpopped ⟨proper, served.handles.ge, ?_, ?_, ?_, ?_, ?_⟩ ?_
      · intro receiver oneshot found
        rw [served.handles]
        cases waiting : waits history.state.oneshots receiver with
        | true => exact orderly.made receiver .waiting (by simpa [waits] using waiting)
        | false =>
          rw [served.oneshots, serving_frame _ _ _ _ (.inr waiting)] at found
          exact orderly.made receiver oneshot found
      · intro other waiter member
        rw [served.handles]
        exact orderly.queued other waiter ((shorter other).subset member)
      · rw [served.waiters, if_neg (Ne.symm different), queue]
      · exact fun other _ waiter member => .inl ((shorter other).subset member)
      · intro client member
        rw [served.oneshots]
        exact serving_frame _ _ _ client
          (.inl (orderly.apart client member target different))
      · rw [served.entries, if_neg (Ne.symm different)]
  · have noPush (elements : List Bytes) (side : Side) : op ≠ .push elements side :=
      fun isPush => push ⟨elements, side, isPush⟩
    obtain ⟨waiters, oneshots, handles⟩ := State.performOn_waiters noPush performed
    exact orderly.unpopped (orderly.aside_of_same proper waiters oneshots handles.ge)
      ((State.performOn_acts noPush performed).frame key (Ne.symm different))

theorem Orderly.blpop (orderly : Orderly key history) {reply : Except WrongType Blocked}
    (performed : history.state.perform clock (.blpop target) = some (state, reply)) :
    Orderly key (History.note key { history with state } (.blpop target) reply) := by
  have proper : state.Proper :=
    orderly.proper.perform (show (StoreCall.blpop target).Proper from True.intro) performed
  simp only [State.perform] at performed
  rcases @State.blpop_spec clock.now history.state orderly.proper target with
    ⟨entry, -, -, popped⟩ | ⟨element, list, isList, next, popped, lookups, -, waiters, oneshots,
      handles⟩ | ⟨absent, popped⟩
  · rw [popped, Option.some.injEq, Prod.mk.injEq] at performed
    obtain ⟨rfl, rfl⟩ := performed
    exact orderly.unpopped (orderly.aside_of_same proper rfl rfl le_rfl)
      (orderly.looked_entry clock.now target)
  · rw [popped, Option.some.injEq, Prod.mk.injEq] at performed
    obtain ⟨rfl, rfl⟩ := performed
    have aside : Aside key history next := orderly.aside_of_same proper waiters oneshots handles.ge
    by_cases same : target = key
    · subst same
      have isFront : history.list target = element :: list :=
        Except.ok.inj ((orderly.cell_eq clock.now).symm.trans isList)
      simp only [note, if_true]
      refine @Orderly.aside _ _ orderly _ aside [element] list (history.state.changes + 1)
        isFront ?_
      rw [lookups, if_pos rfl]
    · simp only [note, if_neg same]
      refine orderly.unpopped aside ?_
      rw [lookups, if_neg (Ne.symm same)]
  · rw [popped, Option.some.injEq, Prod.mk.injEq] at performed
    obtain ⟨rfl, rfl⟩ := performed
    by_cases same : target = key
    · subst same
      rw [orderly.live_eq] at absent
      simp only [note, if_true]
      exact orderly.joined proper absent
        ((orderly.looked_entry clock.now target).trans absent) rfl rfl rfl
    · simp only [note, if_neg same]
      have queues (other : Bytes) (waiter : Nat)
          (member : waiter ∈ (history.state.waiters.insert target
            ((history.state.waiters[target]?.getD []).filter
              (fun waiter => history.state.oneshots[waiter]? ≠ some .closed) ++
                [history.state.handles]))[other]?.getD []) :
          waiter ∈ history.queue other ∨ waiter = history.state.handles := by
        rw [Map.lookup_insert] at member
        split at member
        · rename_i isTarget
          subst isTarget
          rcases List.mem_append.mp member with earlier | isNew
          · exact .inl (List.mem_of_mem_filter earlier)
          · exact .inr (List.mem_singleton.mp isNew)
        · exact .inl member
      refine orderly.unpopped ⟨proper, Nat.le_succ _, ?_, ?_, ?_, ?_, ?_⟩
        (orderly.looked_entry clock.now target)
      · intro receiver oneshot found
        rw [Map.lookup_insert] at found
        split at found
        · rename_i isNew
          exact isNew ▸ Nat.lt_succ_self _
        · exact Nat.lt_succ_of_lt (orderly.made receiver oneshot found)
      · intro other waiter member
        rcases queues other waiter member with earlier | rfl
        · exact Nat.lt_succ_of_lt (orderly.queued other waiter earlier)
        · exact Nat.lt_succ_self _
      · simp only [Map.lookup_insert, if_neg (Ne.symm same), queue]
      · intro other _ waiter member
        exact (queues other waiter member).imp_right fun isNew => Nat.le_of_eq isNew.symm
      · intro client member
        rw [Map.lookup_insert, if_neg (Nat.ne_of_lt (orderly.known client member))]

/-- Looking drops only what has lapsed, which a list never does. -/
theorem Orderly.looks (orderly : Orderly key history) {now : Instant}
    (looks : State.Looks now history.state state) : Orderly key { history with state } := by
  have same : state.entries[key]? = history.state.entries[key]? := by
    rcases looks.entries key with same | ⟨-, entry, held, expired⟩
    · exact same
    · have alive := orderly.live_eq now
      simp [State.live, held, unexpired, expired] at alive
  have proper : state.Proper := orderly.proper.of_touched looks.changes.ge
    fun target => ⟨_, looks.touched target⟩
  exact orderly.unpopped
    (orderly.aside_of_same proper looks.waiters looks.oneshots looks.handles) same

theorem Orderly.step (orderly : Orderly key history) {event : StoreEvent}
    (only : ∀ clock call, event = .call clock call → call.OnlyLists key) :
    Orderly key (history.step key event) := by
  cases event with
  | giveUp receiver =>
    simp only [History.step]
    split
    · exact orderly.giveUp ‹_›
    · exact orderly
  | call clock call =>
    simp only [History.step]
    split
    · rename_i state reply performed
      have called := only clock call rfl
      cases call with
      | on target op =>
        by_cases same : target = key
        · subst same
          exact orderly.on_key called.1 (called.2 rfl) performed
        · exact orderly.elsewhere same called.1 performed
      | blpop target => exact orderly.blpop performed
      | _ => exact orderly.looks (State.perform_looks performed True.intro)
    · exact orderly

theorem orderly_run (key : Bytes) (events : List StoreEvent)
    (only : ∀ clock call, .call clock call ∈ events → call.OnlyLists key) :
    Orderly key (run key events) := by
  suffices every : ∀ history, Orderly key history →
      Orderly key (events.foldl (History.step key) history) from every {} (orderly_start key)
  induction events with
  | nil => exact fun history orderly => orderly
  | cons event events ih =>
    intro history orderly
    refine ih (fun clock call later => only clock call (by simp [later])) _ ?_
    exact orderly.step fun clock call isCall => only clock call (by simp [isCall])

/-- Whatever pushes, pops, blocking pops and clients giving up there are at a key that
only the commands on lists write to: each element pushed is in the list, in the reply of
a pop or with a client that waited for it, and in one of these only; a push leaves the
list and serves those who wait as pushing to a plain list and letting them pop from it
would; and nobody in the queue waits while the key holds a list. -/
theorem blocking_pops_exact (key : Bytes) (events : List StoreEvent)
    (only : ∀ clock call, .call clock call ∈ events → call.OnlyLists key) :
    let history := run key events
    (history.pushed.Perm (history.list key ++ history.popped ++ history.handed) ∧
      history.clients.Nodup) ∧
    (∀ clock elements side, elements ≠ [] →
      let pushed := history.state.push clock key elements side
      pushed.2 = .ok (pushOnto side elements (history.list key)).length ∧
        PushedAs key history elements side pushed.1) ∧
    (∀ waiter ∈ history.queue key, waits history.state.oneshots waiter →
      history.state.entries[key]? = none) ∧
    (history.queue key).filter (waits history.state.oneshots) = history.waiting := by
  have orderly := orderly_run key events only
  refine ⟨⟨orderly.balance, orderly.nodup⟩, ?_, ?_, orderly.unmissed⟩
  · intro now elements side nonempty
    obtain ⟨replied, version, served⟩ := orderly.push_served ⟨now, 0⟩ nonempty side
    exact ⟨replied, orderly.pushedAs served⟩
  · intro waiter member waiting
    obtain ⟨version, held⟩ := orderly.isList
    have isWaiting : waiter ∈ (run key events).waiting := by
      rw [← orderly.unmissed]
      exact List.mem_filter.mpr ⟨member, waiting⟩
    have noList : (run key events).list key = [] := by
      by_contra left
      rw [orderly.idle left] at isWaiting
      cases isWaiting
    rw [held, noList, listEntry_nil]

/-- One client gives up and another waits on; an element goes past the first to the
second, and the next is popped. -/
theorem blocking_pops_exact_of_abandoned :
    let history := run [1]
      [.call ⟨0, 0⟩ (.blpop [1]), .giveUp 0, .call ⟨0, 0⟩ (.blpop [1]),
        .call ⟨0, 0⟩ (.on [1] (.push [[7], [8], [9]] .right)), .call ⟨0, 0⟩ (.on [1] (.lpop 1))]
    history.pushed.Perm (history.list [1] ++ history.popped ++ history.handed) ∧
      history.list [1] = [[9]] ∧ history.popped = [[8]] ∧ history.handed = [[7]] := by
  refine ⟨(blocking_pops_exact [1] _ ?_).1.1, ?_, ?_, ?_⟩
  · intro clock call member
    simp only [List.mem_cons, StoreEvent.call.injEq, reduceCtorEq, List.not_mem_nil,
      or_false, false_or] at member
    rcases member with ⟨-, rfl⟩ | ⟨-, rfl⟩ | ⟨-, rfl⟩ | ⟨-, rfl⟩
    · exact True.intro
    · exact True.intro
    · exact ⟨List.cons_ne_nil _ _, fun _ => .inr (.inl ⟨_, _, rfl⟩)⟩
    · exact ⟨True.intro, fun _ => .inr (.inr ⟨_, rfl⟩)⟩
  · decide +kernel
  · decide +kernel
  · decide +kernel

end History

end RedisServer
