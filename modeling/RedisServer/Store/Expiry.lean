import RedisServer.Store.Invariant

/-!
# Lazy expiry cannot be seen

Entries whose time has passed linger until they are looked at.  A reference store
removes all of them before every operation.  The two answer alike, whatever they are
asked, as long as the clock does not run backwards: they differ in nothing but entries
that nobody gets to see.
-/

namespace RedisServer

/-- Two tables that hold the same entries, as far as anyone looking now can tell. -/
def Agree (now : Instant) (left right : Entries) : Prop :=
  ∀ key : Bytes, unexpired now left[key]? = unexpired now right[key]?

/-- An entry whose time has passed stays so. -/
theorem unexpired_later {now later : Instant} (order : now ≤ later) (held : Option Entry) :
    unexpired later (unexpired now held) = unexpired later held := by
  cases held with
  | none => rfl
  | some entry =>
    by_cases expired : entry.hasExpired now
    · have stillExpired : entry.hasExpired later := by
        unfold Entry.hasExpired at expired ⊢
        cases dated : entry.expiresAt with
        | none => simp [dated] at expired
        | some deadline =>
          simp only [dated, decide_eq_true_eq] at expired ⊢
          exact expired.trans order
      simp [unexpired, expired, stillExpired]
    · simp [unexpired, expired]

namespace Agree

variable {now : Instant} {left right : Entries}

theorem refl (now : Instant) (entries : Entries) : Agree now entries entries := fun _ => rfl

theorem later (agree : Agree now left right) {moment : Instant} (order : now ≤ moment) :
    Agree moment left right := by
  intro key
  rw [← unexpired_later order left[key]?, agree key, unexpired_later order]

theorem drop (agree : Agree now left right) (key : Bytes) :
    Agree now (dropIfExpired now left key) (dropIfExpired now right key) := by
  intro other
  rw [(dropIfExpired_lapsed now left key).unexpired_eq,
    (dropIfExpired_lapsed now right key).unexpired_eq]
  exact agree other

theorem insert (agree : Agree now left right) (key : Bytes) (entry : Entry) :
    Agree now (left.insert key entry) (right.insert key entry) := by
  intro other
  rw [Map.lookup_insert, Map.lookup_insert]
  split
  · rfl
  · exact agree other

theorem erase (agree : Agree now left right) (key : Bytes) :
    Agree now (left.erase key) (right.erase key) := by
  intro other
  rw [Map.lookup_erase, Map.lookup_erase]
  split
  · rfl
  · exact agree other

end Agree

theorem filter_unexpired (now : Instant) (entries : Entries) (key : Bytes) :
    (entries.filter fun _ entry => !entry.hasExpired now)[key]? =
      unexpired now entries[key]? := by
  rw [Std.ExtTreeMap.getElem?_filter']
  cases entries[key]? with
  | none => rfl
  | some entry => cases expired : entry.hasExpired now <;> simp [Option.filter, unexpired, expired]

/-- Tables that agree are the same once what has lapsed is gone. -/
theorem Agree.filter_eq {now : Instant} {left right : Entries} (agree : Agree now left right) :
    (left.filter fun _ entry => !entry.hasExpired now) =
      right.filter fun _ entry => !entry.hasExpired now := by
  apply Std.ExtTreeMap.ext_getElem?
  intro key
  rw [filter_unexpired, filter_unexpired, agree key]

namespace State

/-- Two stores that differ in nothing but entries whose time has passed. -/
def Alike (now : Instant) (left right : State) : Prop :=
  ∃ entries, right = { left with entries } ∧ Agree now left.entries entries

/-- What two stores that are alike come to when both are asked the same: the same
answer, and stores that are alike. -/
def AlikeAfter {ρ : Type} (now : Instant) (left right : State × ρ) : Prop :=
  Alike now left.1 right.1 ∧ left.2 = right.2

theorem AlikeAfter.exists_eq {ρ : Type} {now : Instant} {left right : State × ρ}
    (after : AlikeAfter now left right) : ∃ next other answer,
      left = (next, answer) ∧ right = (other, answer) ∧ Alike now next other := by
  obtain ⟨next, answer⟩ := left
  obtain ⟨other, others⟩ := right
  obtain ⟨alike, same⟩ := after
  simp only at same
  subst same
  exact ⟨next, other, answer, rfl, rfl, alike⟩

namespace Alike

variable {now : Instant} {left right : State}

theorem refl (now : Instant) (state : State) : Alike now state state :=
  ⟨state.entries, rfl, .refl now state.entries⟩

theorem later (alike : Alike now left right) {moment : Instant} (order : now ≤ moment) :
    Alike moment left right := by
  obtain ⟨entries, rfl, agree⟩ := alike
  exact ⟨entries, rfl, agree.later order⟩

theorem live (alike : Alike now left right) (key : Bytes) :
    left.live now key = right.live now key := by
  obtain ⟨entries, rfl, agree⟩ := alike
  exact agree key

theorem looked (alike : Alike now left right) (key : Bytes) :
    Alike now (left.looked now key) (right.looked now key) := by
  obtain ⟨entries, rfl, agree⟩ := alike
  exact ⟨_, rfl, agree.drop key⟩

theorem stored (alike : Alike now left right) (key : Bytes) (entry : Entry) :
    Alike now (left.stored key entry) (right.stored key entry) := by
  obtain ⟨entries, rfl, agree⟩ := alike
  exact ⟨_, rfl, agree.insert key entry⟩

theorem removed (alike : Alike now left right) (key : Bytes) :
    Alike now (left.removed key) (right.removed key) := by
  obtain ⟨entries, rfl, agree⟩ := alike
  exact ⟨_, rfl, agree.erase key⟩

theorem counted (alike : Alike now left right) (changes : Nat) :
    Alike now { left with changes } { right with changes } := by
  obtain ⟨entries, rfl, agree⟩ := alike
  exact ⟨_, rfl, agree⟩

theorem changes (alike : Alike now left right) : left.changes = right.changes := by
  obtain ⟨entries, rfl, agree⟩ := alike
  rfl

theorem opened (alike : Alike now left right) (key : Bytes) (fresh : Data) :
    AlikeAfter now (left.opened now key fresh) (right.opened now key fresh) := by
  refine ⟨?_, by rw [opened_entry, opened_entry, alike.live, alike.changes]⟩
  have sameEntry : (left.opened now key fresh).2 = (right.opened now key fresh).2 := by
    rw [opened_entry, opened_entry, alike.live, alike.changes]
  have looked := alike.looked key
  have grown := (looked.stored key (left.opened now key fresh).2).counted (left.changes + 1)
  have rightIs : (right.opened now key fresh).1 =
      { (right.looked now key).stored key (left.opened now key fresh).2 with
        changes := left.changes + 1 } := by
    rw [sameEntry, alike.changes]
    rfl
  rw [rightIs]
  exact grown

end Alike

/-! ## Lists -/

variable {now : Instant} {left right : State} {key : Bytes}

/-- Two stores that are alike, and hold the very same at one key. -/
structure AlikeAt (now : Instant) (key : Bytes) (left right : State) : Prop where
  alike : Alike now left right
  same : left.entries[key]? = right.entries[key]?

theorem popFirst_agree {entries others : Entries} (agree : Agree now entries others)
    (same : entries[key]? = others[key]?) (version : Nat) :
    (popFirst entries key version = none ∧ popFirst others key version = none) ∨
      ∃ element next nexts, popFirst entries key version = some (element, next) ∧
        popFirst others key version = some (element, nexts) ∧ Agree now next nexts ∧
        next[key]? = nexts[key]? := by
  unfold popFirst
  rw [same]
  split
  · rename_i element elements expiresAt _ _
    refine .inr ⟨element, _, _, rfl, rfl, ?_, ?_⟩
    · split
      · exact agree.erase key
      · exact agree.insert key _
    · split
      · rw [Map.lookup_erase, Map.lookup_erase, if_pos rfl, if_pos rfl]
      · rw [Map.lookup_insert, Map.lookup_insert, if_pos rfl, if_pos rfl]
  · exact .inl ⟨rfl, rfl⟩

theorem pushFirst_agree {entries others : Entries} (agree : Agree now entries others)
    (same : entries[key]? = others[key]?) (element : Bytes) (version : Nat) :
    Agree now (pushFirst entries key element version) (pushFirst others key element version) ∧
      (pushFirst entries key element version)[key]? =
        (pushFirst others key element version)[key]? := by
  unfold pushFirst
  rw [same]
  dsimp only
  split
  · exact ⟨agree.insert key _, by rw [Map.lookup_insert, Map.lookup_insert, if_pos rfl, if_pos rfl]⟩
  · exact ⟨agree.insert key _, by rw [Map.lookup_insert, Map.lookup_insert, if_pos rfl, if_pos rfl]⟩

theorem AlikeAt.serve (alikeAt : AlikeAt now key left right) (version : Nat) (queue : List Nat) :
    Alike now (left.serve key version queue) (right.serve key version queue) := by
  obtain ⟨⟨entries, rfl, agree⟩, same⟩ := alikeAt
  simp only at same
  induction queue generalizing left entries with
  | nil => exact ⟨entries, rfl, agree⟩
  | cons waiter queue ih =>
    simp only [State.serve]
    rcases popFirst_agree agree same version with ⟨isNone, otherNone⟩ |
      ⟨element, next, nexts, isPopped, otherPopped, agreeNext, sameNext⟩
    · rw [isNone, otherNone]
      exact ⟨entries, rfl, agree⟩
    · rw [isPopped, otherPopped]
      dsimp only
      split
      · exact @ih { left with
          entries := next, oneshots := left.oneshots.insert waiter (.handed element) }
          nexts agreeNext sameNext
      · obtain ⟨agreeBack, sameBack⟩ := pushFirst_agree agreeNext sameNext element version
        exact @ih { left with entries := pushFirst next key element version }
          (pushFirst nexts key element version) agreeBack sameBack

theorem AlikeAt.wakeWaiters (alikeAt : AlikeAt now key left right) (version : Nat) :
    Alike now (left.wakeWaiters key version) (right.wakeWaiters key version) := by
  have sameQueue : left.waiters = right.waiters := by
    obtain ⟨⟨entries, rfl, agree⟩, -⟩ := alikeAt
    rfl
  unfold State.wakeWaiters
  rw [sameQueue]
  split
  · exact alikeAt.alike
  · exact alikeAt.serve version _

namespace Alike

theorem push (alike : Alike now left right) (key : Bytes) (elements : List Bytes)
    (side : Side) :
    AlikeAfter now (left.push now key elements side) (right.push now key elements side) := by
  obtain ⟨opened, sameEntry⟩ := alike.opened key (.list [])
  unfold State.push
  dsimp only
  rw [sameEntry, opened.changes]
  split
  · rename_i list _
    refine ⟨AlikeAt.wakeWaiters ⟨opened.stored key _, ?_⟩ _, rfl⟩
    rw [stored_lookup, stored_lookup, if_pos rfl, if_pos rfl]
  · exact ⟨opened, rfl⟩

theorem lpop (alike : Alike now left right) (key : Bytes) (count : Nat) :
    AlikeAfter now (left.lpop now key count) (right.lpop now key count) := by
  have looked := (alike.looked key).counted (left.changes + 1)
  unfold State.lpop
  dsimp only
  simp only [looked_self, looked_changes, alike.live, ← alike.changes]
  split
  · exact ⟨looked, rfl⟩
  · rename_i entry _
    split
    · rename_i list _
      refine ⟨?_, rfl⟩
      dsimp only
      split
      · exact (looked.stored key _).removed key
      · exact looked.stored key _
    · exact ⟨looked, rfl⟩

/-- Blocking pops of stores that are alike end alike, or both in a panic. -/
theorem blpop (alike : Alike now left right) (key : Bytes) :
    Option.Rel (AlikeAfter now) (left.blpop now key) (right.blpop now key) := by
  have looked := alike.looked key
  have same : (left.looked now key).entries[key]? = (right.looked now key).entries[key]? := by
    rw [looked_self, looked_self, alike.live]
  obtain ⟨entries, isRight, agree⟩ := looked
  unfold State.blpop
  dsimp only
  rw [isRight] at same ⊢
  rw [same]
  split
  · exact .some ⟨⟨entries, rfl, agree⟩, rfl⟩
  · rcases popFirst_agree agree same ((left.looked now key).changes + 1) with
      ⟨isNone, otherNone⟩ |
        ⟨element, next, nexts, isPopped, otherPopped, agreeNext, -⟩
    · simp only [isNone, otherNone]
      exact .none
    · simp only [isPopped, otherPopped]
      exact .some ⟨⟨nexts, rfl, agreeNext⟩, rfl⟩
  · exact .some ⟨⟨entries, rfl, agree⟩, rfl⟩

/-! ## Strings, sorted sets and streams -/

theorem set (alike : Alike now left right) (key value : Bytes) (expiresIn : Option Duration) :
    Option.Rel (Alike now) (left.set now key value expiresIn)
      (right.set now key value expiresIn) := by
  have put (expiresAt : Option Instant) :
      Alike now (set.put left key value expiresAt) (set.put right key value expiresAt) := by
    obtain ⟨entries, rfl, agree⟩ := alike
    exact ⟨_, rfl, agree.insert key _⟩
  unfold State.set
  cases expiresIn with
  | none => exact .some (put none)
  | some delay =>
    dsimp only
    generalize instantAdd now delay = deadline
    cases deadline with
    | none => exact .none
    | some deadline => exact .some (put (some deadline))

theorem increment (alike : Alike now left right) (key : Bytes) :
    AlikeAfter now (left.increment now key) (right.increment now key) := by
  obtain ⟨opened, sameEntry⟩ := alike.opened key (.string (utf8 "0"))
  unfold State.increment
  dsimp only
  rw [sameEntry, opened.changes]
  split
  · split
    · exact ⟨opened, rfl⟩
    · split
      · exact ⟨opened, rfl⟩
      · exact ⟨opened.stored key _, rfl⟩
  · exact ⟨opened, rfl⟩

theorem zadd (alike : Alike now left right) (key : Bytes) (members : List (Float × Bytes)) :
    AlikeAfter now (left.zadd now key members) (right.zadd now key members) := by
  obtain ⟨opened, sameEntry⟩ := alike.opened key (.sortedSet [])
  unfold State.zadd
  dsimp only
  rw [sameEntry, opened.changes]
  split
  · exact ⟨opened.stored key _, rfl⟩
  · exact ⟨opened, rfl⟩

theorem zrem (alike : Alike now left right) (key : Bytes) (members : List Bytes) :
    AlikeAfter now (left.zrem now key members) (right.zrem now key members) := by
  have looked := (alike.looked key).counted (left.changes + 1)
  unfold State.zrem
  dsimp only
  simp only [looked_self, looked_changes, alike.live, ← alike.changes]
  split
  · exact ⟨looked, rfl⟩
  · rename_i entry _
    split
    · rename_i set _
      refine ⟨?_, rfl⟩
      dsimp only
      split
      · exact (looked.stored key _).removed key
      · exact looked.stored key _
    · exact ⟨looked, rfl⟩

theorem asked {α : Type} (alike : Alike now left right) (key : Bytes)
    (question : SortedSet Float → α) :
    AlikeAfter now (left.asked now key question) (right.asked now key question) :=
  ⟨alike.looked key, by simp only [State.asked, looked_self, alike.live]⟩

theorem streamAt (alike : Alike now left right) (key : Bytes) :
    AlikeAfter now (left.streamAt now key) (right.streamAt now key) :=
  ⟨alike.looked key, by simp only [State.streamAt, looked_self, alike.live]⟩

theorem wakeWatchers (alike : Alike now left right) (key : Bytes) :
    Alike now (left.wakeWatchers key) (right.wakeWatchers key) := by
  obtain ⟨entries, rfl, agree⟩ := alike
  exact ⟨entries, rfl, agree⟩

theorem xadd (alike : Alike now left right) (unix : UInt64) (key : Bytes)
    (requested : RequestedId) (fields : List (Bytes × Bytes)) :
    AlikeAfter now (left.xadd now unix key requested fields)
      (right.xadd now unix key requested fields) := by
  obtain ⟨opened, sameEntry⟩ := alike.opened key (.stream [])
  unfold State.xadd
  split
  · exact ⟨alike, rfl⟩
  · dsimp only
    rw [sameEntry, opened.changes]
    split
    · split
      · exact ⟨opened, rfl⟩
      · split
        · exact ⟨opened, rfl⟩
        · exact ⟨(opened.stored key _).wakeWatchers key, rfl⟩
    · exact ⟨opened, rfl⟩

theorem xrange (alike : Alike now left right) (key : Bytes) (start stop : EntryId) :
    Option.Rel (AlikeAfter now) (left.xrange now key start stop)
      (right.xrange now key start stop) := by
  obtain ⟨next, other, answer, isLeft, isRight, looked⟩ := (alike.streamAt key).exists_eq
  unfold State.xrange
  rw [isLeft, isRight]
  rcases answer with _ | _ | stream
  · exact .some ⟨looked, rfl⟩
  · exact .some ⟨looked, rfl⟩
  · dsimp only
    split
    · exact .none
    · exact .some ⟨looked, rfl⟩

theorem resolveReads (alike : Alike now left right) (reads : List (Bytes × Option EntryId)) :
    AlikeAfter now (left.resolveReads now reads) (right.resolveReads now reads) := by
  induction reads generalizing left right with
  | nil => exact ⟨alike, rfl⟩
  | cons read reads ih =>
    obtain ⟨key, _ | after⟩ := read
    · obtain ⟨next, other, answer, isLeft, isRight, looked⟩ := (alike.streamAt key).exists_eq
      simp only [State.resolveReads, isLeft, isRight]
      rcases answer with _ | stream
      · exact ⟨looked, rfl⟩
      · obtain ⟨last, others, answer, isRest, isOther, resolved⟩ := (ih looked).exists_eq
        simp only [isRest, isOther]
        rcases answer with _ | _ <;> exact ⟨resolved, rfl⟩
    · obtain ⟨last, others, answer, isRest, isOther, resolved⟩ := (ih alike).exists_eq
      simp only [State.resolveReads, isRest, isOther]
      rcases answer with _ | _ <;> exact ⟨resolved, rfl⟩

theorem xread (alike : Alike now left right) (reads : List (Bytes × EntryId)) :
    AlikeAfter now (left.xread now reads) (right.xread now reads) := by
  induction reads generalizing left right with
  | nil => exact ⟨alike, rfl⟩
  | cons read reads ih =>
    obtain ⟨key, after⟩ := read
    obtain ⟨next, other, answer, isLeft, isRight, looked⟩ := (alike.streamAt key).exists_eq
    simp only [State.xread, isLeft, isRight]
    rcases answer with _ | stream
    · exact ⟨looked, rfl⟩
    · obtain ⟨last, others, answer, isRest, isOther, resolved⟩ := (ih looked).exists_eq
      simp only [isRest, isOther]
      rcases answer with _ | _ <;> exact ⟨resolved, rfl⟩

theorem watch (alike : Alike now left right) (waker : Nat) (reads : List (Bytes × EntryId)) :
    Alike now (left.watch waker reads) (right.watch waker reads) := by
  induction reads generalizing left right with
  | nil => exact alike
  | cons read reads ih =>
    obtain ⟨entries, rfl, agree⟩ := alike
    exact ih ⟨entries, rfl, agree⟩

theorem xreadOrWatch (alike : Alike now left right) (reads : List (Bytes × EntryId)) :
    AlikeAfter now (left.xreadOrWatch now reads) (right.xreadOrWatch now reads) := by
  obtain ⟨next, other, answer, isLeft, isRight, looked⟩ := (alike.xread reads).exists_eq
  simp only [State.xreadOrWatch, isLeft, isRight]
  rcases answer with _ | _ | _
  · exact ⟨looked, rfl⟩
  · obtain ⟨entries, rfl, agree⟩ := looked
    refine ⟨watch ?_ _ _, rfl⟩
    exact ⟨entries, rfl, agree⟩
  · exact ⟨looked, rfl⟩

/-! ## Every key at once -/

theorem versions (alike : Alike now left right) (keys : List Bytes) :
    AlikeAfter now (left.versions now keys) (right.versions now keys) := by
  induction keys generalizing left right with
  | nil => exact ⟨alike, rfl⟩
  | cons key keys ih =>
    have rest := ih (alike.looked key)
    refine ⟨rest.1, ?_⟩
    simp only [State.versions, looked_self, alike.live, rest.2]

theorem unchanged (alike : Alike now left right) (watched : List (Bytes × Option Nat)) :
    AlikeAfter now (left.unchanged now watched) (right.unchanged now watched) := by
  induction watched generalizing left right with
  | nil => exact ⟨alike, rfl⟩
  | cons watch watched ih =>
    simp only [State.unchanged, looked_self, alike.live]
    split
    · exact ih (alike.looked watch.1)
    · exact ⟨alike.looked watch.1, rfl⟩

end Alike

theorem Alike.keys (alike : Alike now left right) (wanted : Bytes → Bool) :
    AlikeAfter now (left.keys now wanted) (right.keys now wanted) := by
  obtain ⟨entries, rfl, agree⟩ := alike
  simp only [State.keys, Agree.filter_eq agree]
  exact ⟨.refl now _, rfl⟩

/-! ## Any call -/

theorem Alike.performOn {clock : Clock} (alike : Alike clock.now left right) (key : Bytes)
    (op : KeyOp) :
    Option.Rel (AlikeAfter clock.now) (left.performOn clock key op)
      (right.performOn clock key op) := by
  cases op with
  | kind => exact .some ⟨alike.looked key, by simp only [State.kind, looked_self, alike.live]⟩
  | set value expiresIn =>
    simp only [State.performOn]
    have put := alike.set key value expiresIn
    generalize left.set clock.now key value expiresIn = result at put
    generalize right.set clock.now key value expiresIn = other at put
    cases put with
    | none => exact .none
    | some next => exact .some ⟨next, rfl⟩
  | get => exact .some ⟨alike.looked key, by simp only [State.get, looked_self, alike.live]⟩
  | increment => exact .some (alike.increment key)
  | push elements side => exact .some (alike.push key elements side)
  | lpop count => exact .some (alike.lpop key count)
  | lrange start stop =>
    exact .some ⟨alike.looked key, by simp only [State.lrange, looked_self, alike.live]⟩
  | llen => exact .some ⟨alike.looked key, by simp only [State.llen, looked_self, alike.live]⟩
  | xadd requested fields => exact .some (alike.xadd clock.unix key requested fields)
  | xrange start stop => exact alike.xrange key start stop
  | zadd members => exact .some (alike.zadd key members)
  | zrank member => exact .some (alike.asked key _)
  | zrem members => exact .some (alike.zrem key members)
  | zmembers | zscore _ | zcard | zrange _ _ => exact .some (alike.asked key _)

/-- Stores that are alike answer every call alike. -/
theorem Alike.perform {clock : Clock} (alike : Alike clock.now left right) (call : StoreCall) :
    Option.Rel (AlikeAfter clock.now) (left.perform clock call) (right.perform clock call) := by
  cases call with
  | on key op => exact alike.performOn key op
  | blpop key => exact alike.blpop key
  | keys wanted => exact .some (alike.keys wanted)
  | versions keys => exact .some (alike.versions keys)
  | unchanged watched => exact .some (alike.unchanged watched)
  | resolveReads reads => exact .some (alike.resolveReads reads)
  | xread reads => exact .some (alike.xread reads)
  | xreadOrWatch reads => exact .some (alike.xreadOrWatch reads)

/-! ## Whole runs -/

/-- The store without the entries whose time has passed. -/
def swept (now : Instant) (state : State) : State :=
  { state with entries := state.entries.filter fun _ entry => !entry.hasExpired now }

/-- One event on the reference store, which is swept before every call. -/
def referenceStep (state : State) : StoreEvent → State
  | .call clock call => (state.swept clock.now).step (.call clock call)
  | .giveUp receiver => state.giveUp receiver

def referenceRun (events : List StoreEvent) (state : State) : State :=
  events.foldl referenceStep state

/-- What the clock reads in the course of a run. -/
def readings : List StoreEvent → List Instant
  | [] => []
  | .call clock _ :: events => clock.now :: readings events
  | .giveUp _ :: events => readings events

theorem Alike.swept (alike : Alike now left right) : Alike now left (right.swept now) := by
  obtain ⟨entries, rfl, agree⟩ := alike
  refine ⟨_, rfl, fun key => ?_⟩
  rw [filter_unexpired, unexpired_later le_rfl]
  exact agree key

theorem Alike.giveUp (alike : Alike now left right) (receiver : Nat) :
    Alike now (left.giveUp receiver) (right.giveUp receiver) := by
  obtain ⟨entries, rfl, agree⟩ := alike
  exact ⟨entries, rfl, agree⟩

/-- One call leaves the store and the reference alike. -/
theorem Alike.call {clock : Clock} (alike : Alike clock.now left right) (call : StoreCall) :
    Alike clock.now (left.step (.call clock call)) (right.referenceStep (.call clock call)) := by
  have performed := alike.swept.perform call
  simp only [State.referenceStep, State.step]
  generalize left.perform clock call = result at performed
  generalize (right.swept clock.now).perform clock call = other at performed
  cases performed with
  | none => exact alike.swept
  | some after => exact after.1

theorem Alike.run (alike : Alike now left right) {events : List StoreEvent}
    (ordered : (now :: readings events).Pairwise (· ≤ ·)) {moment : Instant}
    (reached : ∀ reading ∈ now :: readings events, reading ≤ moment) :
    Alike moment (left.run events) (right.referenceRun events) := by
  induction events generalizing now left right with
  | nil => exact alike.later (reached now (by simp))
  | cons event events ih =>
    cases event with
    | giveUp receiver => exact ih (alike.giveUp receiver) ordered reached
    | call clock call =>
      obtain ⟨first, rest⟩ := List.pairwise_cons.mp ordered
      have here := alike.later (first clock.now (by simp [readings]))
      exact ih (here.call call) rest fun reading member =>
        reached reading (List.mem_cons_of_mem now member)

theorem readings_append (events later : List StoreEvent) :
    readings (events ++ later) = readings events ++ readings later := by
  induction events with
  | nil => rfl
  | cons event events ih => cases event <;> simp [readings, ih]

/-- On a clock that does not run backwards, a call answers as it would on a store swept
of every expired entry before each call, and from then on every key's live entry is
that store's. -/
theorem lazy_expiry_unseen (start : State) (events : List StoreEvent) (clock : Clock)
    (call : StoreCall)
    (ordered : (readings (events ++ [.call clock call])).Pairwise (· ≤ ·)) :
    ((start.run events).perform clock call).map Prod.snd =
        (((start.referenceRun events).swept clock.now).perform clock call).map Prod.snd ∧
      ∀ moment, clock.now ≤ moment → ∀ key,
        (start.run (events ++ [.call clock call])).live moment key =
          (start.referenceRun (events ++ [.call clock call])).live moment key := by
  rw [readings_append, readings, readings, List.pairwise_append] at ordered
  obtain ⟨ordered, -, reached⟩ := ordered
  have alike : Alike clock.now (start.run events) (start.referenceRun events) := by
    refine (Alike.refl 0 start).run (List.pairwise_cons.mpr ⟨fun _ _ => Nat.zero_le _, ordered⟩)
      fun reading member => ?_
    rcases List.mem_cons.mp member with rfl | member
    · exact Nat.zero_le _
    · exact reached reading member clock.now (by simp)
  constructor
  · have performed := alike.swept.perform call
    generalize (start.run events).perform clock call = result at performed ⊢
    generalize ((start.referenceRun events).swept clock.now).perform clock call = other
      at performed ⊢
    cases performed with
    | none => rfl
    | some after => exact congrArg some after.2
  · intro moment order key
    have last := (alike.call call).later order
    simp only [State.run, State.referenceRun, List.foldl_append, List.foldl_cons,
      List.foldl_nil] at last ⊢
    exact last.live key

/-- A key whose time is over is gone for both. -/
theorem lazy_expiry_unseen_of_lapsed :
    (readings ([.call ⟨0, 0⟩ (.on [107] (.set [118] (some 1)))] ++
        [.call ⟨1, 0⟩ (.on [107] .get)])).Pairwise (· ≤ ·) ∧
      ((State.run [.call ⟨0, 0⟩ (.on [107] (.set [118] (some 1)))] {}).perform ⟨1, 0⟩
          (.on [107] .get)).map Prod.snd =
        (((State.referenceRun [.call ⟨0, 0⟩ (.on [107] (.set [118] (some 1)))] {}).swept 1).perform
          ⟨1, 0⟩ (.on [107] .get)).map Prod.snd :=
  ⟨by decide, (lazy_expiry_unseen {} [.call ⟨0, 0⟩ (.on [107] (.set [118] (some 1)))] ⟨1, 0⟩
    (.on [107] .get) (by decide)).1⟩

end State

end RedisServer
