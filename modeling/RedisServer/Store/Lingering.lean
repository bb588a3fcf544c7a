import RedisServer.Store.Watchers

/-!
# Wakers of readers that have gone

A reader that stops waiting leaves its waker behind under the keys that did not grow.  The
next reader to come to a key clears away the wakers held by nothing but the map, by asking
how many references there are to each.  A waker left in two places has two of them whether
its reader waits or not, and stays.
-/

namespace RedisServer.State

/-- A waker is kept in two places: twice under one key, or under two. -/
def KeptTwice (state : State) (waker : Nat) : Prop :=
  (∃ key, 1 < (state.watchersAt key).count waker) ∨
    ∃ key other, key ≠ other ∧ waker ∈ state.watchersAt key ∧ waker ∈ state.watchersAt other

/-- No waker is kept before it is handed out. -/
def Fresh (state : State) : Prop :=
  ∀ key, ∀ waker ∈ state.watchersAt key, waker < state.handles

theorem watchersAt_eq_some {state : State} {key : Bytes} {waker : Nat}
    (member : waker ∈ state.watchersAt key) :
    state.watchers[key]? = some (state.watchersAt key) := by
  rw [watchersAt] at member ⊢
  cases found : state.watchers[key]? with
  | none => simp [found] at member
  | some watching => rfl

/-- A waker no client holds has more than one reference just when it is kept twice. -/
theorem one_lt_strongCount_iff {state : State} {waker : Nat} (gone : ¬ state.holds waker) :
    1 < state.strongCount state.watchers waker ↔ state.KeptTwice waker := by
  have unheld : ((state.wakers[waker]?.map Waker.held).getD false) = false := by
    cases found : state.wakers[waker]? with
    | none => rfl
    | some left =>
      obtain ⟨permit, held⟩ := left
      cases held with
      | false => rfl
      | true => exact absurd ⟨permit, found⟩ gone
  have counted := Map.one_lt_sum_iff state.watchers fun watching => watching.count waker
  rw [strongCount, unheld]
  simp only [Bool.false_eq_true, if_false, Nat.add_zero]
  rw [counted, KeptTwice]
  constructor
  · rintro (⟨key, watching, found, twice⟩ |
      ⟨key, other, watching, others, different, found, foundToo, some, someToo⟩)
    · refine .inl ⟨key, ?_⟩
      rw [watchersAt, found]
      exact twice
    · refine .inr ⟨key, other, different, ?_, ?_⟩
      · rw [watchersAt, found]
        exact List.count_pos_iff.mp some
      · rw [watchersAt, foundToo]
        exact List.count_pos_iff.mp someToo
  · rintro (⟨key, twice⟩ | ⟨key, other, different, member, memberToo⟩)
    · have member : waker ∈ state.watchersAt key := List.count_pos_iff.mp (by omega)
      exact .inl ⟨key, _, watchersAt_eq_some member, twice⟩
    · exact .inr ⟨key, other, _, _, different, watchersAt_eq_some member,
        watchersAt_eq_some memberToo, List.count_pos_iff.mpr member,
        List.count_pos_iff.mpr memberToo⟩

/-- Being kept twice depends on how often a waker is kept under each key. -/
theorem KeptTwice.of_count {before after : State} {waker : Nat} (twice : before.KeptTwice waker)
    (counts : ∀ key, (before.watchersAt key).count waker ≤ (after.watchersAt key).count waker) :
    after.KeptTwice waker := by
  rcases twice with ⟨key, twice⟩ | ⟨key, other, different, member, memberToo⟩
  · exact .inl ⟨key, twice.trans_le (counts key)⟩
  · refine .inr ⟨key, other, different, ?_, ?_⟩
    · exact List.count_pos_iff.mp ((List.count_pos_iff.mpr member).trans_le (counts key))
    · exact List.count_pos_iff.mp ((List.count_pos_iff.mpr memberToo).trans_le (counts other))

/-! ## Leaving a waker -/

theorem count_watch_le (waker : Nat) (state : State) (reads : List (Bytes × EntryId)) {other : Nat}
    (different : other ≠ waker) (key : Bytes) :
    ((state.watch waker reads).watchersAt key).count other ≤
      (state.watchersAt key).count other := by
  induction reads generalizing state with
  | nil => exact le_rfl
  | cons read reads ih =>
    rw [watch_cons]
    refine (ih _).trans ?_
    rw [watchersAt_watchOne]
    split
    · rename_i same
      rw [← same, List.count_append, List.count_singleton,
        if_neg (by simpa using different.symm), Nat.add_zero]
      exact List.filter_sublist.count_le other
    · exact le_rfl

theorem mem_of_mem_watch {waker : Nat} {state : State} {reads : List (Bytes × EntryId)}
    {other : Nat} {key : Bytes} (different : other ≠ waker)
    (member : other ∈ (state.watch waker reads).watchersAt key) : other ∈ state.watchersAt key :=
  List.count_pos_iff.mp
    ((List.count_pos_iff.mpr member).trans_le (count_watch_le waker state reads different key))

/-- A waker kept twice stays wherever it was. -/
theorem count_watch_of_keptTwice (waker : Nat) (state : State) (reads : List (Bytes × EntryId))
    {other : Nat} (different : other ≠ waker) (gone : ¬ state.holds other)
    (twice : state.KeptTwice other) (key : Bytes) :
    ((state.watch waker reads).watchersAt key).count other =
      (state.watchersAt key).count other := by
  induction reads generalizing state with
  | nil => rfl
  | cons read reads ih =>
    have same (key : Bytes) : ((state.watchOne waker read.1).watchersAt key).count other =
        (state.watchersAt key).count other := by
      rw [watchersAt_watchOne]
      split
      · rename_i here
        rw [here, List.count_append, List.count_singleton,
          if_neg (by simpa using different.symm), Nat.add_zero]
        refine List.count_filter ?_
        simpa using (one_lt_strongCount_iff gone).mpr twice
      · rfl
    have still : (state.watchOne waker read.1).KeptTwice other :=
      twice.of_count fun key => (same key).ge
    rw [watch_cons, ih (state.watchOne waker read.1) gone still, same]

/-- Any other waker of a client that has gone is cleared away from the keys. -/
theorem notMem_watch_of_not_keptTwice (waker : Nat) (state : State)
    (reads : List (Bytes × EntryId)) {other : Nat} (different : other ≠ waker)
    (gone : ¬ state.holds other) (once : ¬ state.KeptTwice other) :
    ∀ read ∈ reads, other ∉ (state.watch waker reads).watchersAt read.1 := by
  induction reads generalizing state with
  | nil => simp
  | cons read reads ih =>
    have cleared : other ∉ (state.watchOne waker read.1).watchersAt read.1 := by
      rw [watchersAt_watchOne, if_pos rfl]
      simp [different, (one_lt_strongCount_iff gone).not.mpr once]
    exact List.forall_mem_cons.mpr ⟨fun member => cleared (mem_of_mem_watch different member),
      ih _ gone fun twice => once
        (twice.of_count fun key => count_watch_le waker state [read] different key)⟩

/-! ## Registering a reader -/

/-- A read that finds nothing leaves a new waker under its keys. -/
theorem xreadOrWatch_waiting {now : Instant} {before after : State}
    {reads : List (Bytes × EntryId)} {waker : Nat}
    (registered : before.xreadOrWatch now reads = (after, .ok (.waiting waker))) :
    waker = before.handles ∧ ∃ entries, after = State.watch waker { before with
      entries
      wakers := before.wakers.insert waker ⟨false, true⟩
      handles := waker + 1 } reads := by
  rw [xreadOrWatch] at registered
  have drops := xread_drops now before reads
  cases found : before.xread now reads with
  | mk next streams =>
    rw [found] at registered drops
    rcases streams with error | _ | ⟨stream, streams⟩
    · cases registered
    · simp only [Prod.mk.injEq, Except.ok.injEq, StreamRead.waiting.injEq] at registered
      obtain ⟨rfl, rfl⟩ := registered
      obtain ⟨-, isNext⟩ := drops
      generalize next.entries = entries at isNext
      subst isNext
      exact ⟨rfl, entries, rfl⟩
    · cases registered

/-- Right after a reader is registered, the other wakers under its keys are all held just
when those that no client held were kept once. -/
theorem registered_holds_iff {now : Instant} {before after : State}
    {reads : List (Bytes × EntryId)} {waker : Nat}
    (fresh : before.Fresh)
    (registered : before.xreadOrWatch now reads = (after, .ok (.waiting waker))) :
    (∀ read ∈ reads, ∀ other ∈ after.watchersAt read.1, other ≠ waker → after.holds other) ↔
      ∀ read ∈ reads, ∀ other ∈ before.watchersAt read.1,
        before.holds other ∨ ¬ before.KeptTwice other := by
  obtain ⟨rfl, entries, rfl⟩ := xreadOrWatch_waiting registered
  generalize isNew : ({ before with
    entries
    wakers := before.wakers.insert before.handles ⟨false, true⟩
    handles := before.handles + 1 } : State) = new
  have watchers (key : Bytes) : new.watchersAt key = before.watchersAt key := by
    rw [← isNew]
    rfl
  have twice (other : Nat) : new.KeptTwice other ↔ before.KeptTwice other := by
    simp only [KeptTwice, watchers]
  have held {other : Nat} (different : other ≠ before.handles) :
      new.holds other ↔ before.holds other := by
    simp only [holds, ← isNew, Map.lookup_insert, if_neg different]
  have sameHolds (other : Nat) :
      (new.watch before.handles reads).holds other ↔ new.holds other := by
    rw [holds, (watch_spec before.handles new reads).2.1, holds]
  constructor
  · intro tended read isRead other member
    have different := Nat.ne_of_lt (fresh _ _ member)
    by_cases isHeld : before.holds other
    · exact .inl isHeld
    · refine .inr fun isTwice => isHeld ?_
      have gone : ¬ new.holds other := (held different).not.mpr isHeld
      have kept := count_watch_of_keptTwice before.handles new reads different gone
        ((twice other).mpr isTwice) read.1
      rw [watchers] at kept
      have stays := List.count_pos_iff.mp (kept.symm ▸ List.count_pos_iff.mpr member)
      exact (held different).mp ((sameHolds other).mp (tended read isRead other stays different))
  · intro once read isRead other member different
    rw [sameHolds, held different]
    have wasThere := mem_of_mem_watch different member
    rw [watchers] at wasThere
    rcases once read isRead other wasThere with isHeld | isOnce
    · exact isHeld
    · by_contra gone
      exact notMem_watch_of_not_keptTwice _ new reads different ((held different).not.mpr gone)
        ((twice other).not.mpr isOnce) read isRead member

/-! ## What a call does to the wakers -/

/-- A waker is held on to by whoever it was handed to, and by no one else. -/
theorem perform_holds {clock : Clock} {before after : State} {call : StoreCall}
    {reply : call.Reply} (proper : before.Proper) (called : call.Proper)
    (performed : before.perform clock call = some (after, reply)) {waker : Nat}
    (held : after.holds waker) :
    before.holds waker ∨ ∃ reads, call.watches reply = some (waker, reads) := by
  cases perform_stirs proper called performed with
  | aside unwatched watchers wakers handles streams =>
    exact .inl (by rwa [holds, wakers] at held)
  | grew key requested fields id handles watchers wakers streams =>
    obtain ⟨permit, isHeld⟩ := held
    rw [(xadd_wakes (Option.some.inj performed)).2, lookup_foldl_wake] at isHeld
    split at isHeld
    · cases found : before.wakers[waker]? with
      | none => simp [found] at isHeld
      | some left =>
        rw [found, Option.getD_some, Option.some.injEq, Waker.mk.injEq] at isHeld
        exact .inl ⟨left.permit, by rw [found, ← isHeld.2]⟩
    · exact .inl ⟨permit, isHeld⟩
  | watched reads handles wakers watchers left read streams =>
    rw [holds, wakers] at held
    obtain ⟨permit, isHeld⟩ := held
    rw [Map.lookup_insert] at isHeld
    split at isHeld
    · rename_i isNew
      subst isNew
      exact .inr ⟨reads, rfl⟩
    · exact .inl ⟨permit, isHeld⟩

theorem Fresh.perform {clock : Clock} {before after : State} {call : StoreCall}
    {reply : call.Reply} (fresh : before.Fresh) (proper : before.Proper) (called : call.Proper)
    (performed : before.perform clock call = some (after, reply)) : after.Fresh := by
  intro key waker member
  cases perform_stirs proper called performed with
  | aside unwatched watchers wakers handles streams =>
    rw [watchersAt, watchers] at member
    exact (fresh key waker member).trans_le handles
  | grew target requested fields id handles watchers wakers streams =>
    rw [handles]
    rw [watchersAt, (xadd_wakes (Option.some.inj performed)).1, Map.lookup_erase] at member
    split at member
    · cases member
    · exact fresh key waker member
  | watched reads handles wakers watchers left read streams =>
    rw [handles]
    by_cases isNew : waker = before.handles
    · omega
    · obtain ⟨-, entries, isAfter⟩ := xreadOrWatch_waiting (Option.some.inj performed)
      rw [isAfter] at member
      have wasThere := mem_of_mem_watch isNew member
      exact Nat.lt_succ_of_lt (fresh key waker wasThere)

end RedisServer.State
