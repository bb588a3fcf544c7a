import RedisServer.Store.Invariant

/-!
# A store nobody waits on and nothing lapses in

When no key carries a deadline and no client waits for an element, each method
that concerns one key does to the keyspace exactly what `KeyOp.act` says, and what
it does depends on no clock as long as no deadline and no generated id is asked
for.
-/

namespace RedisServer

variable {state after before : State} {key : Bytes} {op : KeyOp} {now : Instant} {clock : Clock}
  {reply : op.Reply}

/-- What each key holds. -/
abbrev Keyspace := Bytes → Option Cell

namespace Keyspace

/-- The keyspace once a method has been carried out on a key. -/
def carry (clock : Clock) (key : Bytes) (op : KeyOp) (space : Keyspace) : Keyspace :=
  match op.act clock (space key) with
  | some (cell, _) => Function.update space key cell
  | none => space

end Keyspace

namespace KeyOp

/-- Whether a method has appended to a stream. -/
def appended : (op : KeyOp) → op.Reply → Bool
  | .xadd _ _, .ok _ => true
  | _, _ => false

/-- A method that asks for no deadline and no generated id. -/
def Timeless : KeyOp → Prop
  | .set _ expiresIn => expiresIn = none
  | .xadd requested _ => requested ≠ .auto
  | _ => True

/-- What such a method does depends on no clock. -/
theorem act_timeless (timeless : op.Timeless) (clock other : Clock) (cell : Option Cell) :
    op.act clock cell = op.act other cell := by
  cases op with
  | set value expiresIn =>
    obtain rfl : expiresIn = none := timeless
    rfl
  | xadd requested fields =>
    have same (stream : List StreamEntry) :
        Cell.append clock.unix requested fields stream =
          Cell.append other.unix requested fields stream := by
      simp only [Cell.append, resolve_of_ne_auto timeless clock.unix other.unix]
    simp only [act, Cell.xadd, same]
  | _ => rfl

end KeyOp

namespace State

/-- What each key holds, expired or not. -/
def contents (state : State) : Keyspace := fun key => state.entries[key]?.map Entry.cell

/-- No key carries a deadline. -/
def Undated (state : State) : Prop :=
  ∀ (key : Bytes) (entry : Entry), state.entries[key]? = some entry → entry.expiresAt = none

theorem Undated.live_eq (undated : state.Undated) (now : Instant) (key : Bytes) :
    state.live now key = state.entries[key]? := by
  cases held : state.entries[key]? with
  | none => simp [live, held, unexpired]
  | some entry =>
    have noDeadline := undated key entry held
    simp [live, held, unexpired, Entry.hasExpired, noDeadline]

/-- Looking at keys changes nothing when none of them lapses. -/
theorem Undated.of_lapsed (undated : before.Undated)
    (lapsed : Lapsed now before.entries after.entries) :
    after.contents = before.contents ∧ after.Undated := by
  have same (key : Bytes) : after.entries[key]? = before.entries[key]? := by
    rcases lapsed key with same | ⟨-, entry, held, expired⟩
    · exact same
    · simp [Entry.hasExpired, undated key entry held] at expired
  refine ⟨funext fun key => by simp only [contents, same], fun key entry held => ?_⟩
  exact undated key entry (same key ▸ held)

/-- No client in any queue waits any more. -/
def Quiet (state : State) : Prop :=
  ∀ (key : Bytes), ∀ waiter ∈ state.waiters[key]?.getD [],
    state.oneshots[waiter]? ≠ some .waiting

/-- What a method other than a push leaves alone. -/
structure Spares (op : KeyOp) (before after : State) (reply : op.Reply) : Prop where
  waiters : after.waiters = before.waiters
  oneshots : after.oneshots = before.oneshots
  handles : after.handles = before.handles
  watchers : op.appended reply = false → after.watchers = before.watchers
  wakers : op.appended reply = false → after.wakers = before.wakers

theorem performOn_spares (noPush : ∀ elements side, op ≠ .push elements side)
    (performed : state.performOn clock key op = some (after, reply)) :
    Spares op state after reply := by
  have only {result : State × op.Reply} (performed : some result = some (after, reply))
      (spares : Spares op state result.1 result.2) : Spares op state after reply := by
    rw [Option.some.injEq] at performed
    rwa [performed] at spares
  cases op with
  | push elements side => exact absurd rfl (noPush elements side)
  | set value expiresIn =>
    cases expiresIn with
    | none => exact only performed ⟨rfl, rfl, rfl, fun _ => rfl, fun _ => rfl⟩
    | some delay =>
      simp only [performOn, set, Option.map_map, Option.map_eq_some_iff] at performed
      obtain ⟨deadline, -, made⟩ := performed
      exact only (congrArg some made) ⟨rfl, rfl, rfl, fun _ => rfl, fun _ => rfl⟩
  | xrange start stop =>
    have looks : (state.streamAt clock.now key).1 = state.looked clock.now key := rfl
    simp only [performOn, xrange] at performed
    generalize state.streamAt clock.now key = found at performed looks
    obtain ⟨next, _ | _ | stream⟩ := found
    all_goals
      obtain rfl : next = state.looked clock.now key := looks
      simp only at performed
    · exact only performed ⟨rfl, rfl, rfl, fun _ => rfl, fun _ => rfl⟩
    · exact only performed ⟨rfl, rfl, rfl, fun _ => rfl, fun _ => rfl⟩
    · split at performed
      · cases performed
      · exact only performed ⟨rfl, rfl, rfl, fun _ => rfl, fun _ => rfl⟩
  | increment =>
    refine only performed ?_
    simp only [increment]
    split
    · split
      · exact ⟨rfl, rfl, rfl, fun _ => rfl, fun _ => rfl⟩
      · split <;> exact ⟨rfl, rfl, rfl, fun _ => rfl, fun _ => rfl⟩
    · exact ⟨rfl, rfl, rfl, fun _ => rfl, fun _ => rfl⟩
  | lpop count =>
    refine only performed ?_
    simp only [lpop]
    split
    · exact ⟨rfl, rfl, rfl, fun _ => rfl, fun _ => rfl⟩
    · split
      · dsimp only
        split <;> exact ⟨rfl, rfl, rfl, fun _ => rfl, fun _ => rfl⟩
      · exact ⟨rfl, rfl, rfl, fun _ => rfl, fun _ => rfl⟩
  | xadd requested fields =>
    refine only performed ?_
    simp only [xadd]
    split
    · exact ⟨rfl, rfl, rfl, fun _ => rfl, fun _ => rfl⟩
    · split
      · split
        · exact ⟨rfl, rfl, rfl, fun _ => rfl, fun _ => rfl⟩
        · split
          · exact ⟨rfl, rfl, rfl, fun _ => rfl, fun _ => rfl⟩
          · exact ⟨rfl, rfl, rfl, by rintro ⟨⟩, by rintro ⟨⟩⟩
      · exact ⟨rfl, rfl, rfl, fun _ => rfl, fun _ => rfl⟩
  | zadd members =>
    refine only performed ?_
    simp only [zadd]
    split <;> exact ⟨rfl, rfl, rfl, fun _ => rfl, fun _ => rfl⟩
  | zrem members =>
    refine only performed ?_
    simp only [zrem]
    split
    · exact ⟨rfl, rfl, rfl, fun _ => rfl, fun _ => rfl⟩
    · split
      · dsimp only
        split <;> exact ⟨rfl, rfl, rfl, fun _ => rfl, fun _ => rfl⟩
      · exact ⟨rfl, rfl, rfl, fun _ => rfl, fun _ => rfl⟩
  | _ => exact only performed ⟨rfl, rfl, rfl, fun _ => rfl, fun _ => rfl⟩

/-- A method other than a push leaves those waiting for an element alone. -/
theorem performOn_waiters {clock : Clock} {state after : State} {key : Bytes} {op : KeyOp}
    {reply : op.Reply} (noPush : ∀ elements side, op ≠ .push elements side)
    (performed : state.performOn clock key op = some (after, reply)) :
    after.waiters = state.waiters ∧ after.oneshots = state.oneshots ∧
      after.handles = state.handles := by
  have spares := performOn_spares noPush performed
  exact ⟨spares.waiters, spares.oneshots, spares.handles⟩

/-- Neither waited on nor timed, and fit to be asked anything. -/
structure Settled (state : State) : Prop where
  proper : state.Proper
  undated : state.Undated
  quiet : state.Quiet

theorem settled_empty : ({} : State).Settled := ⟨proper_empty, by simp [Undated], by simp [Quiet]⟩

/-- A timeless method leaves no deadline where there was none. -/
theorem act_undated {clock : Clock} {op : KeyOp} (timeless : op.Timeless)
    {cell after : Option Cell} {reply : op.Reply}
    (undated : ∀ held, cell = some held → held.expiresAt = none)
    (acted : op.act clock cell = some (after, reply)) :
    ∀ held, after = some held → held.expiresAt = none := by
  have only {result : Option Cell × op.Reply} (acted : some result = some (after, reply))
      (kept : ∀ held, result.1 = some held → held.expiresAt = none) :
      ∀ held, after = some held → held.expiresAt = none := by
    rw [Option.some.injEq] at acted
    rwa [acted] at kept
  cases op with
  | set value expiresIn =>
    obtain rfl : expiresIn = none := timeless
    exact only acted (by rintro _ ⟨⟩; rfl)
  | increment =>
    refine only acted ?_
    rcases cell with _ | ⟨_ | _ | _ | _, expiresAt⟩ <;> grind [Cell.increment]
  | push elements side =>
    refine only acted ?_
    rcases cell with _ | ⟨_ | _ | _ | _, expiresAt⟩ <;> grind [Cell.push]
  | lpop count =>
    refine only acted ?_
    rcases cell with _ | ⟨_ | _ | _ | _, expiresAt⟩ <;> grind [Cell.lpop]
  | xadd requested fields =>
    refine only acted ?_
    rcases cell with _ | ⟨_ | _ | _ | _, expiresAt⟩ <;> grind [Cell.xadd]
  | zadd members =>
    refine only acted ?_
    rcases cell with _ | ⟨_ | _ | _ | _, expiresAt⟩ <;> grind [Cell.zadd]
  | zrem members =>
    refine only acted ?_
    rcases cell with _ | ⟨_ | _ | _ | _, expiresAt⟩ <;> grind [Cell.zrem]
  | _ => exact KeyOp.act_of_looks rfl acted ▸ undated

theorem Undated.contents_eq (undated : state.Undated) (now : Instant) (key : Bytes) :
    (state.live now key).map Entry.cell = state.contents key := by
  rw [undated.live_eq]
  rfl

theorem contents_stamp (version : Nat) (wrote : Bool) (old : Option Entry)
    (cell : Option Cell) : (stamp version wrote old cell).map Entry.cell = cell := by
  cases cell <;> rfl

/-- What a method does to the keyspace. -/
theorem Acts.contents (undated : before.Undated) (acts : Acts clock key op before after reply) :
    ∃ cell, op.act clock (before.contents key) = some (cell, reply) ∧
      after.contents = Function.update before.contents key cell := by
  obtain ⟨cell, acted, stored⟩ := acts.cell
  rw [undated.contents_eq] at acted stored
  refine ⟨cell, acted, funext fun other => ?_⟩
  by_cases same : other = key
  · subst same
    rw [Function.update_self]
    rcases stored with stored | ⟨rfl, -, rfl⟩
    · rw [State.contents, stored, contents_stamp]
    · rfl
  · rw [Function.update_of_ne same, State.contents, acts.frame other same]
    rfl

/-- The list a key holds when nothing else does. -/
theorem contents_of_list {list : List Bytes} (undated : state.Undated)
    (held : Cell.list (state.contents key) = .ok list) :
    (state.contents key = none ∧ list = []) ∨ state.contents key = some ⟨.list list, none⟩ := by
  cases found : state.entries[key]? with
  | none =>
    simp only [contents, found, Option.map_none, Cell.list, Except.ok.injEq] at held ⊢
    exact .inl ⟨trivial, held.symm⟩
  | some entry =>
    have noDeadline := undated key entry found
    obtain ⟨data, expiresAt, version⟩ := entry
    simp only at noDeadline
    subst noDeadline
    cases data with
    | list elements =>
      simp only [contents, found, Option.map_some, Entry.cell, Cell.list,
        Except.ok.injEq] at held ⊢
      exact .inr (by rw [held])
    | _ => simp [contents, found, Entry.cell, Cell.list] at held

theorem Undated.update {cell : Option Cell} (undated : before.Undated)
    (changed : after.contents = Function.update before.contents key cell)
    (noDeadline : ∀ held, cell = some held → held.expiresAt = none) : after.Undated := by
  intro other entry held
  have there : after.contents other = some entry.cell := by simp [State.contents, held]
  rw [changed] at there
  by_cases same : other = key
  · subst same
    rw [Function.update_self] at there
    exact noDeadline _ there
  · rw [Function.update_of_ne same, State.contents, Option.map_eq_some_iff] at there
    obtain ⟨old, isOld, same⟩ := there
    have := undated other old isOld
    simpa [Entry.cell, this] using congrArg Cell.expiresAt same.symm

theorem Undated.cells (undated : state.Undated) (key : Bytes) :
    ∀ held, state.contents key = some held → held.expiresAt = none := by
  intro held found
  obtain ⟨entry, isEntry, rfl⟩ := Option.map_eq_some_iff.mp found
  exact undated key entry isEntry

/-- A push nobody waits for. -/
theorem push_contents {clock : Clock} {state : State} {key : Bytes}
    {elements : List Bytes} (settled : state.Settled) (nonempty : elements ≠ [])
    (side : Side) :
    (state.push clock.now key elements side).1.Quiet ∧
      ∃ cell, KeyOp.act clock (.push elements side) (state.contents key) =
          some (cell, (state.push clock.now key elements side).2) ∧
        (state.push clock.now key elements side).1.contents =
          Function.update state.contents key cell := by
  rcases @push_spec clock state key elements nonempty side
      fun _ _ => live_undated settled.proper with
    ⟨error, replied, acts, sameOneshots, sameWaiters⟩ | ⟨old, isOld, replied, -, served⟩
  · rw [replied]
    exact ⟨by simp only [Quiet, sameWaiters, sameOneshots]; exact settled.quiet,
      acts.contents settled.undated⟩
  · have pushed : pushOnto side elements old ≠ [] := pushOnto_ne_nil nonempty side old
    have unserved := serving_of_gone (settled.quiet key) pushed
    refine ⟨fun other waiter queued => ?_, some ⟨.list (pushOnto side elements old), none⟩,
      ?_, funext fun other => ?_⟩
    · rw [served.waiters, unserved] at queued
      rw [served.oneshots, unserved]
      split at queued
      · simp at queued
      · exact settled.quiet other waiter queued
    · rw [settled.undated.contents_eq] at isOld
      rw [replied]
      rcases contents_of_list settled.undated isOld with ⟨absent, rfl⟩ | present
      · simp [KeyOp.act, Cell.push, absent]
      · simp [KeyOp.act, Cell.push, present]
    · rw [State.contents, served.entries, unserved]
      by_cases same : other = key
      · subst same
        rw [if_pos rfl, Function.update_self, listEntry_of_ne_nil pushed]
        rfl
      · rw [if_neg same, Function.update_of_ne same]
        rfl

/-- A method on a settled store does to the keyspace what it says. -/
theorem Settled.performOn (settled : state.Settled) (timeless : op.Timeless) (called : op.Proper)
    (performed : state.performOn clock key op = some (after, reply)) :
    after.Settled ∧ ∃ cell, op.act clock (state.contents key) = some (cell, reply) ∧
      after.contents = Function.update state.contents key cell := by
  obtain ⟨quiet, cell, acted, changed⟩ : after.Quiet ∧
      ∃ cell, op.act clock (state.contents key) = some (cell, reply) ∧
        after.contents = Function.update state.contents key cell := by
    by_cases push : ∃ elements side, op = .push elements side
    · obtain ⟨elements, side, rfl⟩ := push
      have pushed := @push_contents clock state key elements settled called side
      simp only [State.performOn, Option.some.injEq] at performed
      rwa [performed] at pushed
    · have noPush : ∀ elements side, op ≠ .push elements side :=
        fun elements side isPush => push ⟨elements, side, isPush⟩
      obtain ⟨sameWaiters, sameOneshots, -⟩ := performOn_waiters noPush performed
      refine ⟨?_, (performOn_acts noPush performed).contents settled.undated⟩
      simp only [Quiet, sameWaiters, sameOneshots]
      exact settled.quiet
  refine ⟨⟨?_, ?_, quiet⟩, cell, acted, changed⟩
  · exact @Proper.perform clock state after (.on key op) reply settled.proper called performed
  · exact settled.undated.update changed
      (act_undated timeless (settled.undated.cells key) acted)

/-- A method that writes, asked for without a deadline, goes through. -/
theorem performOn_ne_none (timeless : op.Timeless) (writes : op.writes) (clock : Clock)
    (state : State) (key : Bytes) : state.performOn clock key op ≠ none := by
  cases op with
  | set value expiresIn =>
    obtain rfl : expiresIn = none := timeless
    simp [State.performOn, State.set]
  | increment | push | lpop | xadd | zadd | zrem => simp [State.performOn]
  | _ => cases writes

theorem Looks.settled (settled : before.Settled) (looks : Looks now before after) :
    after.Settled ∧ after.contents = before.contents := by
  obtain ⟨same, undated⟩ := settled.undated.of_lapsed looks.entries
  refine ⟨⟨settled.proper.of_touched looks.changes.ge fun key => ⟨_, looks.touched key⟩,
    undated, ?_⟩, same⟩
  simp only [Quiet, looks.waiters, looks.oneshots]
  exact settled.quiet

/-- A blocking pop on a settled store is refused, or takes what `LPOP` would, or
leaves the keyspace alone and waits. -/
theorem Settled.blpop {reply : Except WrongType Blocked} (settled : state.Settled)
    (performed : state.blpop now key = some (after, reply)) :
    (reply = .error .wrongType ∧ after.Settled ∧ after.contents = state.contents) ∨
      (∃ element, reply = .ok (.ready element) ∧ after.Settled ∧
        ∀ clock, after.contents = state.contents.carry clock key (.lpop 1)) ∨
      (∃ receiver, reply = .ok (.waiting receiver) ∧ after.contents = state.contents ∧
        after.oneshots[receiver]? = some .waiting ∧ (after.giveUp receiver).Settled) := by
  have proper : after.Proper :=
    @Proper.perform ⟨now, 0⟩ state after (.blpop key) reply settled.proper True.intro performed
  rcases @blpop_spec now state settled.proper key with
    ⟨entry, -, -, popped⟩ |
      ⟨element, list, isList, next, popped, lookups, -, sameWaiters, sameOneshots, -⟩ |
      ⟨-, popped⟩
  all_goals
    rw [popped, Option.some.injEq, Prod.mk.injEq] at performed
    obtain ⟨rfl, rfl⟩ := performed
  · exact .inl ⟨rfl, Looks.settled settled (looked_looks now state key)⟩
  · refine .inr (.inl ⟨element, rfl, ?_⟩)
    rw [settled.undated.contents_eq] at isList
    rcases contents_of_list settled.undated isList with ⟨-, ⟨⟩⟩ | present
    have acted (clock : Clock) : KeyOp.act clock (.lpop 1) (state.contents key) =
        some (if list.isEmpty then none else some ⟨.list list, none⟩, .ok [element]) := by
      simp [KeyOp.act, Cell.lpop, present]
    have changed : next.contents = Function.update state.contents key
        (if list.isEmpty then none else some ⟨.list list, none⟩) := by
      funext other
      rw [State.contents, lookups]
      by_cases same : other = key
      · subst same
        rw [if_pos rfl, Function.update_self]
        cases list <;> rfl
      · rw [if_neg same, Function.update_of_ne same]
        rfl
    refine ⟨⟨proper, settled.undated.update changed ?_, ?_⟩, fun clock => ?_⟩
    · exact @act_undated ⟨0, 0⟩ (.lpop 1) True.intro _ _ _ (settled.undated.cells key)
        (acted ⟨0, 0⟩)
    · simp only [Quiet, sameWaiters, sameOneshots]
      exact settled.quiet
    · rw [changed, Keyspace.carry, acted]
  · have looks := looked_looks now state key
    obtain ⟨same, undated⟩ := settled.undated.of_lapsed looks.entries
    refine .inr (.inr ⟨_, rfl, same, by simp, ⟨proper.cells, proper.stamps⟩, undated, ?_⟩)
    intro other waiter queued
    simp only [giveUp, Map.lookup_insert] at queued ⊢
    by_cases new : waiter = state.handles
    · simp [new]
    · rw [if_neg new, if_neg new]
      split at queued
      · simp only [Option.getD_some, List.mem_append, List.mem_filter, List.mem_singleton,
          new, or_false] at queued
        exact settled.quiet key waiter queued.1
      · exact settled.quiet other waiter queued

end State

end RedisServer
