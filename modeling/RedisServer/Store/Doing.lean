import RedisServer.Lib.Backlog
import RedisServer.Store.Queues
import RedisServer.Store.Settled

/-!
# What a call does to the keys, one method at a time

A call that writes comes to methods carried out one after the other.  Most come to one; a
push that hands elements to those who wait comes to the push and a pop for each of them,
to be written down by the client that pushed and by those who waited.
-/

namespace RedisServer

variable {before after state : State} {call : StoreCall} {op : KeyOp} {clock : Clock} {key : Bytes}
  {reply : op.Reply}

/-- A method that was carried out on a key, and what it answered. -/
structure Done where
  key : Bytes
  op : KeyOp
  reply : op.Reply

/-- What a method that was carried out makes of what a key holds, whenever that is, and
whether it would answer there what it did. -/
def Done.effects : Effects Bytes (Option Cell) Done where
  cell done := done.key
  act done cell := ((done.op.act ⟨0, 0⟩ cell).map Prod.fst).getD cell
  fits done cell := ∃ after, done.op.act ⟨0, 0⟩ cell = some (after, done.reply)

/-- Whoever has to write down what was done: the connection that asked for it, or the one
that waits for an element. -/
inductive Owner where
  | connection (id : Nat)
  | waiter (receiver : Nat)
  deriving DecidableEq, Repr

/-- Whether a method was refused. -/
def KeyOp.refused : (op : KeyOp) → op.Reply → Bool
  | .increment, .error _ => true
  | .push _ _, .error _ => true
  | .lpop _, .error _ => true
  | .xadd _ _, .error _ => true
  | .zadd _, .error _ => true
  | .zrem _, .error _ => true
  | _, _ => false

/-- The pop a client that waited for an element comes to. -/
def Done.pop (key element : Bytes) : Done := ⟨key, .lpop 1, .ok [element]⟩

namespace State

/-- The elements a push hands to those who wait. -/
def handsOut (state : State) (key : Bytes) (elements : List Bytes) (side : Side) :
    List (Nat × Bytes) :=
  (Handover.settle ((state.queueAt key).filter (waits state.oneshots))
    (pushOnto side elements (state.listAt key))).served

/-- What a call does, and who has to write it down. -/
def dues (id : Nat) (state : State) : (call : StoreCall) → call.Reply → List (Owed Owner Done)
  | .on key op, reply =>
    if !op.writes || op.refused reply then []
    else
      ⟨.connection id, ⟨key, op, reply⟩⟩ ::
        match op with
        | .push elements side => (state.handsOut key elements side).map fun handed =>
          ⟨.waiter handed.1, .pop key handed.2⟩
        | _ => []
  | .blpop key, .ok (.ready element) => [⟨.connection id, .pop key element⟩]
  | _, _ => []

end State

/-! ## What a list is left with -/

/-- What a key holds once a list has been taken from. -/
def listCell (list : List Bytes) : Option Cell :=
  if list.isEmpty then none else some ⟨.list list, none⟩

theorem contents_listEntry (list : List Bytes) (version : Nat) :
    (listEntry list version).map Entry.cell = listCell list := by
  cases list <;> rfl

theorem Done.apply_eq {space : Keyspace} {done : Done} {cell : Option Cell}
    (acted : done.op.act ⟨0, 0⟩ (space done.key) = some (cell, done.reply)) :
    Done.effects.apply space done = Function.update space done.key cell := by
  simp [Effects.apply, Done.effects, acted]

theorem Done.apply_eq_carry (space : Keyspace) (done : Done) :
    Done.effects.apply space done = space.carry ⟨0, 0⟩ done.key done.op := by
  simp only [Effects.apply, Done.effects, Keyspace.carry]
  cases done.op.act ⟨0, 0⟩ (space done.key) with
  | none => simp
  | some result => rfl

/-- Elements taken one by one from the front. -/
theorem does_pops {space : Keyspace} {key : Bytes} {elements rest : List Bytes}
    (held : space key = listCell (elements ++ rest)) :
    Done.effects.Does space (elements.map fun element => .pop key element)
      (Function.update space key (listCell rest)) := by
  induction elements generalizing space with
  | nil =>
    change Function.update space key (listCell rest) = space
    rw [← List.nil_append rest, ← held, Function.update_eq_self]
  | cons element elements ih =>
    have acted : KeyOp.act ⟨0, 0⟩ (.lpop 1) (space key) =
        some (listCell (elements ++ rest), .ok [element]) := by
      rw [held]
      simp [KeyOp.act, listCell, Cell.lpop]
    refine ⟨⟨_, acted⟩, ?_⟩
    rw [@Done.apply_eq space (.pop key element) _ acted]
    have later := @ih (Function.update space key (listCell (elements ++ rest)))
      (Function.update_self ..)
    rwa [Function.update_idem] at later

/-! ## What a call does -/

theorem KeyOp.unwritten_of_refused (refused : op.refused reply = true) :
    op.wrote reply = false := by
  cases op with
  | increment | push | lpop | xadd | zadd | zrem =>
    cases reply with
    | error error => rfl
    | ok value => cases refused
  | _ => cases refused

/-- A call that asks for one method, which depends on no clock, or that pops and may wait. -/
def StoreCall.Timeless : StoreCall → Prop
  | .on _ op => op.writes = true ∧ op.Timeless
  | .blpop _ => True
  | _ => False

namespace State

/-- A call that depends on no clock does not panic. -/
theorem perform_ne_none (proper : state.Proper) (timeless : call.Timeless) (clock : Clock) :
    state.perform clock call ≠ none := by
  cases call with
  | on key op => exact performOn_ne_none timeless.2 timeless.1 _ _ _
  | blpop key =>
    rcases @blpop_spec clock.now state proper key with
      ⟨entry, -, -, popped⟩ | ⟨element, list, -, next, popped, -⟩ | ⟨-, popped⟩
    all_goals
      rw [perform, popped]
      simp
  | _ => exact timeless.elim

theorem undated_of_contents
    (undated : ∀ key held, state.contents key = some held → held.expiresAt = none) :
    state.Undated := by
  intro key entry held
  exact undated key entry.cell (by simp [contents, held])

/-- Methods that depend on no clock leave no deadline where there was none. -/
theorem undated_of_does {space after : Keyspace} {doings : List Done}
    (does : Done.effects.Does space doings after)
    (timeless : ∀ done ∈ doings, done.op.Timeless)
    (undated : ∀ key held, space key = some held → held.expiresAt = none) :
    ∀ key held, after key = some held → held.expiresAt = none := by
  induction doings generalizing space with
  | nil =>
    cases does
    exact undated
  | cons done doings ih =>
    obtain ⟨⟨cell, acted⟩, rest⟩ := does
    rw [Done.apply_eq acted] at rest
    refine ih rest (fun other member => timeless other (by simp [member])) fun key held found => ?_
    by_cases here : key = done.key
    · subst here
      rw [Function.update_self] at found
      exact act_undated (timeless done (by simp)) (undated done.key) acted held found
    · rw [Function.update_of_ne here] at found
      exact undated key held found

theorem Acts.does (undated : before.Undated) (timeless : op.Timeless)
    (acts : Acts clock key op before after reply) :
    Done.effects.Does before.contents [⟨key, op, reply⟩] after.contents := by
  obtain ⟨cell, acted, changed⟩ := acts.contents undated
  rw [KeyOp.act_timeless timeless clock ⟨0, 0⟩] at acted
  refine ⟨⟨cell, acted⟩, ?_⟩
  rw [@Done.apply_eq _ ⟨key, op, reply⟩ _ acted]
  exact changed

/-- A method that was refused has changed nothing. -/
theorem Acts.contents_of_refused (proper : before.Proper) (undated : before.Undated)
    (acts : Acts clock key op before after reply) (refused : op.refused reply = true) :
    after.contents = before.contents := by
  obtain ⟨cell, acted, changed⟩ := acts.contents undated
  have same := KeyOp.act_unwritten (fun held found => ?_) acted (KeyOp.unwritten_of_refused refused)
  · rw [changed, same, Function.update_eq_self]
  · obtain ⟨entry, isEntry, rfl⟩ := Option.map_eq_some_iff.mp found
    exact proper.cells key entry isEntry

/-- A push comes to the push and a pop for each of those who were handed an element. -/
theorem Served.does {elements : List Bytes} {side : Side} {version : Nat} (undated : before.Undated)
    (nonempty : elements ≠ []) (nodup : (before.queueAt key).Nodup)
    (found : Cell.list (before.contents key) = .ok (before.listAt key))
    (served : Served key (pushOnto side elements (before.listAt key)) version before after) :
    Done.effects.Does before.contents
      (⟨key, .push elements side, .ok (pushOnto side elements (before.listAt key)).length⟩ ::
        (before.handsOut key elements side).map fun handed => .pop key handed.2)
      after.contents := by
  generalize isPushed : pushOnto side elements (before.listAt key) = pushed at served
  have some : pushed ≠ [] := isPushed ▸ pushOnto_ne_nil nonempty side _
  have acted : KeyOp.act ⟨0, 0⟩ (.push elements side) (before.contents key) =
      .some (listCell pushed, .ok pushed.length) := by
    rw [listCell, if_neg (by simpa using some), ← isPushed]
    rcases contents_of_list undated found with ⟨absent, isNil⟩ | present
    · simp [KeyOp.act, Cell.push, absent, isNil]
    · simp [KeyOp.act, Cell.push, present]
  refine ⟨⟨_, acted⟩, ?_⟩
  rw [@Done.apply_eq _ ⟨key, .push elements side, .ok pushed.length⟩ _ acted]
  obtain ⟨items, -, -⟩ := serving_settle before.oneshots nodup pushed
  have split := Handover.settle_items ((before.queueAt key).filter (waits before.oneshots)) pushed
  have changed : after.contents = Function.update (Function.update before.contents key
      (listCell pushed)) key (listCell (Handover.settle ((before.queueAt key).filter
        (waits before.oneshots)) pushed).items) := by
    rw [Function.update_idem]
    funext other
    rw [contents, served.entries]
    by_cases same : other = key
    · subst same
      rw [if_pos rfl, contents_listEntry, Function.update_self]
      exact congrArg _ items
    · rw [if_neg same, Function.update_of_ne same]
      rfl
  rw [changed, State.handsOut, isPushed]
  have pops := @does_pops (Function.update before.contents key (listCell pushed)) key
    ((Handover.settle ((before.queueAt key).filter (waits before.oneshots)) pushed).served.map
      Prod.snd) (Handover.settle ((before.queueAt key).filter (waits before.oneshots)) pushed).items
    (by rw [split, Function.update_self])
  rwa [List.map_map] at pops

/-- A call does to the keys what it owes to be written down. -/
theorem perform_does {reply : call.Reply} (proper : before.Proper) (undated : before.Undated)
    (lined : before.Lined) (called : call.Proper) (timeless : call.Timeless)
    (performed : before.perform clock call = some (after, reply)) (id : Nat) :
    Done.effects.Does before.contents ((before.dues id call reply).map Owed.op) after.contents := by
  cases call with
  | on key op =>
    obtain ⟨writes, timeless⟩ := timeless
    by_cases push : ∃ elements side, op = .push elements side
    · obtain ⟨elements, side, rfl⟩ := push
      simp only [perform, performOn, Option.some.injEq] at performed
      rcases push_spec called side fun _ _ => live_undated proper with
        ⟨error, replied, acts, -⟩ | ⟨old, isOld, replied, -, served⟩
      · rw [performed] at replied acts
        simp only at replied
        subst replied
        exact acts.contents_of_refused proper undated rfl
      · rw [performed] at replied served
        simp only at replied served
        subst replied
        obtain rfl := proper.listAt_eq isOld
        rw [undated.contents_eq] at isOld
        have does := served.does undated called (lined.nodup key) isOld
        simpa [dues, KeyOp.writes, KeyOp.refused, Function.comp_def] using does
    · have noPush (elements : List Bytes) (side : Side) : op ≠ .push elements side :=
        fun isPush => push ⟨elements, side, isPush⟩
      have acts := performOn_acts noPush performed
      cases refused : op.refused reply with
      | true =>
        simp only [dues, refused, Bool.or_true, if_true, List.map_nil]
        exact acts.contents_of_refused proper undated refused
      | false =>
        have does := acts.does undated timeless
        cases op with
        | push elements side => exact absurd rfl (noPush elements side)
        | _ => simpa [dues, writes, refused] using does
  | blpop key =>
    simp only [perform] at performed
    rcases @blpop_spec clock.now before proper key with
      ⟨entry, -, -, popped⟩ | ⟨element, list, isList, next, popped, lookups, -⟩ | ⟨-, popped⟩
    all_goals
      rw [popped, Option.some.injEq, Prod.mk.injEq] at performed
      obtain ⟨rfl, rfl⟩ := performed
    · exact (undated.of_lapsed (looked_looks clock.now before key).entries).1
    · rw [undated.contents_eq] at isList
      rcases contents_of_list undated isList with ⟨-, ⟨⟩⟩ | present
      have pops := @does_pops before.contents key [element] list (by rw [present]; rfl)
      have changed : next.contents = Function.update before.contents key (listCell list) := by
        funext other
        rw [contents, lookups]
        by_cases same : other = key
        · subst same
          rw [if_pos rfl, contents_listEntry, Function.update_self]
        · rw [if_neg same, Function.update_of_ne same]
          rfl
      rw [changed]
      exact pops
    · exact (undated.of_lapsed (looked_looks clock.now before key).entries).1
  | _ => exact timeless.elim

/-! ## Who is owed to -/

/-- What a call does to those who wait, and whom it hands an element. -/
inductive Hands (before after : State) : (call : StoreCall) → call.Reply → Prop where
  | aside {call : StoreCall} {reply : call.Reply} (untold : call.toldToWait reply = none)
      (unpushed : call.pushes reply = none) (waiters : after.waiters = before.waiters)
      (oneshots : after.oneshots = before.oneshots) (handles : before.handles ≤ after.handles) :
      Hands before after call reply
  | joined (key : Bytes)
      (queue : ∀ other, ∀ waiter ∈ after.queueAt other,
        waiter ∈ before.queueAt other ∨ (waiter = before.handles ∧ other = key))
      (oneshots : after.oneshots = before.oneshots.insert before.handles .waiting)
      (handles : before.handles < after.handles) :
      Hands before after (.blpop key) (.ok (.waiting before.handles))
  | served (key : Bytes) (elements : List Bytes) (side : Side) (length : Nat)
      (queue : ∀ other, ∀ waiter ∈ after.queueAt other, waiter ∈ before.queueAt other)
      (nodup : ((before.handsOut key elements side).map Prod.fst).Nodup)
      (waited : ∀ receiver ∈ (before.handsOut key elements side).map Prod.fst,
        receiver ∈ before.queueAt key ∧ before.oneshots[receiver]? = some .waiting)
      (handed : ∀ receiver : Nat, after.oneshots[receiver]? =
        (((before.handsOut key elements side).lookup receiver).map Oneshot.handed).or
          before.oneshots[receiver]?)
      (handles : before.handles ≤ after.handles) :
      Hands before after (.on key (.push elements side)) (.ok length)

theorem Served.hands {elements : List Bytes} {side : Side} {version : Nat} (length : Nat)
    (lined : before.Lined)
    (served : Served key (pushOnto side elements (before.listAt key)) version before after) :
    Hands before after (.on key (.push elements side)) (.ok length) := by
  have waiting := Handover.settle_waiting ((before.queueAt key).filter (waits before.oneshots))
    (pushOnto side elements (before.listAt key))
  refine .served key elements side length (fun other waiter member => ?_) ?_
    (fun receiver member => ?_) (fun receiver => ?_) served.handles.ge
  · rw [queueAt, served.waiters] at member
    split at member
    · rename_i same
      rw [same]
      exact (serving_queue_suffix _ _ _).subset member
    · exact member
  · exact ((lined.nodup key).filter _).sublist
      (waiting ▸ List.sublist_append_left _ _)
  · have isWaiting : receiver ∈ (before.queueAt key).filter (waits before.oneshots) := by
      rw [← waiting]
      exact List.mem_append_left _ member
    simpa [waits] using List.mem_filter.mp isWaiting
  · rw [served.oneshots]
    exact (serving_settle before.oneshots (lined.nodup key) _).2.2 receiver

theorem perform_hands {reply : call.Reply} (proper : before.Proper) (lined : before.Lined)
    (called : call.Proper) (performed : before.perform clock call = some (after, reply)) :
    Hands before after call reply := by
  cases perform_queues proper called performed with
  | joined key waiters oneshots handles =>
    refine .joined key (fun other waiter member => ?_) oneshots (by omega)
    rw [queueAt, waiters, Map.lookup_insert] at member
    split at member
    · rename_i same
      rcases List.mem_append.mp member with old | new
      · rw [same]
        exact .inl (List.mem_of_mem_filter old)
      · exact .inr ⟨List.mem_singleton.mp new, same⟩
    · exact .inl member
  | served key elements side version length served => exact served.hands length lined
  | aside unpushed waiters oneshots handles =>
    refine .aside ?_ unpushed waiters oneshots handles
    unfold StoreCall.toldToWait
    split
    · -- a blocking pop that is told to wait has joined the queue
      rename_i key receiver
      exfalso
      simp only [perform] at performed
      rcases @blpop_spec clock.now before proper key with
        ⟨entry, -, -, popped⟩ | ⟨element, list, -, next, popped, -⟩ | ⟨-, popped⟩
      all_goals rw [popped] at performed
      · cases performed
      · cases performed
      · cases performed
        have here := congrArg (fun oneshots : Map Nat Oneshot => oneshots[before.handles]?) oneshots
        simp only [Map.lookup_insert, if_true] at here
        exact absurd (lined.known _ _ here.symm) (lt_irrefl _)
    · rfl

/-- Each of those who were handed an element owes the pop of it. -/
theorem owedBy_pops {handed : List (Nat × Bytes)} (nodup : (handed.map Prod.fst).Nodup)
    (key : Bytes) (receiver : Nat) :
    owedBy (.waiter receiver) (handed.map fun handed =>
        (⟨.waiter handed.1, .pop key handed.2⟩ : Owed Owner Done)) =
      ((handed.lookup receiver).map fun element =>
        (⟨.waiter receiver, .pop key element⟩ : Owed Owner Done)).toList := by
  induction handed with
  | nil => rfl
  | cons first handed ih =>
    obtain ⟨client, element⟩ := first
    rw [List.map_cons, List.nodup_cons] at nodup
    rw [List.map_cons, owedBy_cons, ih nodup.2, List.lookup_cons]
    by_cases same : client = receiver
    · subst same
      have absent : handed.lookup client = none := by
        rw [List.lookup_eq_none_iff]
        intro other member
        have different : client ≠ other.1 := by
          rintro rfl
          exact nodup.1 (List.mem_map.mpr ⟨other, member, rfl⟩)
        simpa using different
      simp [absent]
    · have unequal : (receiver == client) = false := by simpa using Ne.symm same
      simp [same, unequal]

theorem dues_push (id : Nat) (state : State) (key : Bytes) (elements : List Bytes) (side : Side)
    (length : Nat) :
    state.dues id (.on key (.push elements side)) (.ok length) =
      ⟨.connection id, ⟨key, .push elements side, .ok length⟩⟩ ::
        (state.handsOut key elements side).map fun handed =>
          ⟨.waiter handed.1, .pop key handed.2⟩ := by
  simp [dues, KeyOp.writes, KeyOp.refused]

/-- A method that was not refused is owed by whoever asked for it, and nothing else is. -/
theorem dues_on (id : Nat) (state : State) (key : Bytes) (writes : op.writes = true)
    (accepted : op.refused reply = false) :
    ∃ rest, state.dues id (.on key op) reply = ⟨.connection id, ⟨key, op, reply⟩⟩ :: rest ∧
      ∀ other, owedBy (.connection other) rest = [] := by
  cases op with
  | push elements side =>
    cases reply with
    | error error => cases accepted
    | ok length =>
      refine ⟨_, dues_push id state key elements side length, fun other => ?_⟩
      rw [owedBy, List.filter_eq_nil_iff]
      intro owed member
      obtain ⟨handed, -, rfl⟩ := List.mem_map.mp member
      simp
  | _ => exact ⟨[], by simp [dues, writes, accepted], fun _ => rfl⟩

/-- Where nothing is pushed nobody who waits owes anything for it. -/
theorem owedBy_dues_of_unpushed {id : Nat} {reply : call.Reply}
    (unpushed : call.pushes reply = none) (receiver : Nat) :
    owedBy (.waiter receiver) (state.dues id call reply) = [] := by
  unfold dues
  split
  · split
    · rfl
    · rename_i accepted
      rw [owedBy_cons, if_neg (by simp)]
      split
      · rename_i reply
        cases reply with
        | error error => simp [KeyOp.refused] at accepted
        | ok length => cases unpushed
      · rfl
  · rfl
  · rfl

theorem dues_timeless {id : Nat} {reply : call.Reply} (timeless : call.Timeless) :
    ∀ done ∈ (state.dues id call reply).map Owed.op, done.op.Timeless := by
  intro done member
  obtain ⟨owed, isDue, rfl⟩ := List.mem_map.mp member
  unfold dues at isDue
  split at isDue
  · split at isDue
    · cases isDue
    · rcases List.mem_cons.mp isDue with rfl | isDue
      · exact timeless.2
      · split at isDue
        · obtain ⟨handed, -, rfl⟩ := List.mem_map.mp isDue
          exact True.intro
        · cases isDue
  · cases List.mem_singleton.mp isDue
    exact True.intro
  · cases isDue

end State

end RedisServer
