import RedisServer.Concurrency.Storing

/-!
# What `EXEC` checks

A connection watches a key from the moment it first asks for it.  What is watched, what
the key held at that moment and whether it has been written to since are all told by
what has happened so far.  The connection itself goes by the versions it was given, and
the two come to the same.
-/

namespace RedisServer

/-! ## What the store answers -/

namespace State

theorem Looks.live {now : Instant} {before after : State} (looks : Looks now before after)
    (key : Bytes) : after.live now key = before.live now key :=
  looks.entries.unexpired_eq key

theorem versions_eq (now : Instant) (state : State) (keys : List Bytes) :
    (state.versions now keys).2 = keys.map fun key => (state.live now key).map Entry.version := by
  induction keys generalizing state with
  | nil => rfl
  | cons key keys ih => simp [versions, ih, (looked_looks now state key).live]

theorem unchanged_eq_true (now : Instant) (state : State)
    (watched : List (Bytes × Option Nat)) :
    (state.unchanged now watched).2 = true ↔
      ∀ watch ∈ watched, (state.live now watch.1).map Entry.version = watch.2 := by
  induction watched generalizing state with
  | nil => simp [unchanged]
  | cons watch watched ih =>
    simp only [unchanged, looked_self, List.forall_mem_cons]
    split
    · rename_i same
      rw [ih]
      simp only [(looked_looks now state watch.1).live, same, true_and]
    · rename_i changed
      simp [changed]

end State

/-- What a connection watches once it has been given the versions of some keys. -/
theorem foldl_watch_lookup (keys : List Bytes) (version : Bytes → Option Nat)
    (watched : Map Bytes (Option Nat)) (key : Bytes) :
    ((keys.zip (keys.map version)).foldl Transactions.watch watched)[key]? =
      if watched[key]?.isNone ∧ key ∈ keys then some (version key) else watched[key]? := by
  induction keys generalizing watched with
  | nil => simp
  | cons first keys ih =>
    simp only [List.map_cons, List.zip_cons_cons, List.foldl_cons, ih, Transactions.watch]
    by_cases known : first ∈ watched
    · by_cases same : key = first
      · subst same
        simp [known]
      · simp [known, same]
    · by_cases same : key = first
      · subst same
        simp [known]
      · simp [known, Map.lookup_insert, same]

/-! ## A watch, by what has happened -/

/-- A key being watched: what it held when that began, and whether it has been written to
since. -/
structure Watch where
  held : Option Entry
  written : Bool := false

/-- A watch that goes on. -/
def Watch.on (watch : Watch) (wrote : Bool) : Watch :=
  { watch with written := watch.written || wrote }

@[simp] theorem Watch.on_false (watch : Watch) : watch.on false = watch := by
  simp [on]

/-- Whether the key is as it was: the entry it held is still there and nothing has been
written to it, or there is no more of it than there was. -/
def Watch.Undisturbed (watch : Watch) (state : State) (now : Instant) (key : Bytes) : Prop :=
  match watch.held with
  | some entry => state.live now key = some entry ∧ watch.written = false
  | none => state.live now key = none

/-- What a connection has been asked last, and how it watches a key. -/
structure Attention where
  asked : Option Value := none
  watch : Option Watch := none

section

variable [Platform]

/-- What becomes of a connection's attention to a key. -/
def Attention.after (id : Nat) (key : Bytes) (attention : Attention) (moment : Moment) :
    Attention :=
  match moment.what with
  | .accepted => if moment.id = id then {} else attention
  | .asked value => if moment.id = id then { attention with asked := some value } else attention
  | .answered answer =>
    if moment.id = id ∧ attention.asked.any (givesUpWatch · answer) then
      { attention with watch := none }
    else attention
  | .called env (.store (.versions keys)) _ =>
    if moment.id = id ∧ key ∈ keys ∧ attention.watch.isNone then
      { attention with watch := some { held := moment.world.store.live env.clock.now key } }
    else attention
  | .called _ (.store (.unchanged _)) _ =>
    if moment.id = id then { attention with watch := none } else attention
  | what =>
    { attention with watch := attention.watch.map fun watch => watch.on (what.wrote key) }

/-- How attentive a connection is to a key after all that has happened. -/
def attention (id : Nat) (key : Bytes) (history : List Moment) : Attention :=
  history.foldl (Attention.after id key) {}

theorem attention_concat (id : Nat) (key : Bytes) (history : List Moment) (moment : Moment) :
    attention id key (history ++ [moment]) = (attention id key history).after id key moment := by
  simp [attention]

/-- What a connection goes by, and what has happened, come to the same watch. -/
def Matches (id : Nat) (watched : Map Bytes (Option Nat)) (history : List Moment) : Prop :=
  ∀ key, watched[key]? =
    (attention id key history).watch.map fun watch => watch.held.map Entry.version

/-- How a watch bears on what the store holds at its key. -/
def Watch.Bears (watch : Watch) (state : State) (key : Bytes) : Prop :=
  ∀ entry, watch.held = some entry → entry.version ≤ state.changes ∧
    if watch.written then
      ∀ found : Entry, state.entries[key]? = some found → entry.version < found.version
    else state.entries[key]? = some entry ∨ state.entries[key]? = none

omit [Platform] in
/-- What a turn leaves of a watch. -/
theorem Watch.Bears.touched {watch : Watch} {before after : State} {key : Bytes} {wrote : Bool}
    {now : Instant} (bears : watch.Bears before key)
    (touched : State.Touched now before after key wrote)
    (counted : before.changes ≤ after.changes) :
    (watch.on wrote).Bears after key := by
  intro entry isHeld
  obtain ⟨stamped, rest⟩ := bears entry isHeld
  refine ⟨stamped.trans counted, ?_⟩
  cases touched with
  | written advanced fresh =>
    simp only [Watch.on, Bool.or_true, if_true]
    intro found isFound
    rw [(fresh found isFound).1]
    exact stamped.trans_lt advanced
  | left kept =>
    rw [Watch.on_false]
    split
    · rename_i written
      rw [if_pos written] at rest
      intro found isFound
      rcases kept with same | ⟨gone, -⟩
      · exact rest found (same ▸ isFound)
      · rw [gone] at isFound
        cases isFound
    · rename_i unwritten
      rw [if_neg unwritten] at rest
      rcases kept with same | ⟨gone, -⟩
      · rw [same]
        exact rest
      · exact .inr gone

omit [Platform] in
/-- The version a key was given tells whether it is as it was. -/
theorem Watch.Bears.undisturbed_iff {watch : Watch} {state : State} {key : Bytes}
    (bears : watch.Bears state key) (now : Instant) :
    watch.Undisturbed state now key ↔
      (state.live now key).map Entry.version = watch.held.map Entry.version := by
  unfold Undisturbed
  split
  · rename_i entry isHeld
    obtain ⟨-, rest⟩ := bears entry isHeld
    rw [isHeld, Option.map_some, Option.map_eq_some_iff]
    constructor
    · rintro ⟨isLive, -⟩
      exact ⟨entry, isLive, rfl⟩
    · rintro ⟨found, isLive, sameVersion⟩
      have isFound := (State.live_eq_some isLive).1
      split at rest
      · have later := rest found isFound
        omega
      · rename_i unwritten
        rcases rest with same | gone
        · rw [same, Option.some.injEq] at isFound
          exact ⟨isFound ▸ isLive, by simpa using unwritten⟩
        · rw [gone] at isFound
          cases isFound
  · rename_i isHeld
    rw [isHeld, Option.map_none, Option.map_eq_none_iff]

/-! ## Attention, moment by moment -/

/-- Whether a moment says something about what its own connection watches. -/
def Moment.steers (moment : Moment) : Bool :=
  match moment.what with
  | .accepted | .asked _ | .answered _ => true
  | .called _ (.store (.versions _)) _ => true
  | .called _ (.store (.unchanged _)) _ => true
  | _ => false

/-- A moment that has nothing to do with what a connection watches, but may write to it. -/
theorem Attention.after_aside {id : Nat} {key : Bytes} {attention : Attention}
    {moment : Moment} (aside : moment.id ≠ id ∨ moment.steers = false) :
    attention.after id key moment =
      { attention with
        watch := attention.watch.map fun watch => watch.on (moment.what.wrote key) } := by
  have still : attention = { attention with
      watch := attention.watch.map fun watch => watch.on false } := by
    simp
  obtain ⟨turn, world, what⟩ := moment
  rcases aside with elsewhere | unsteered
  · simp only at elsewhere
    unfold Attention.after
    simp only [elsewhere, if_false, false_and]
    split
    all_goals first | exact still | rfl
  · unfold Moment.steers at unsteered
    unfold Attention.after
    split at unsteered
    · cases unsteered
    · cases unsteered
    · cases unsteered
    · cases unsteered
    · cases unsteered
    · rfl

/-- A key is watched from now on, or as before. -/
theorem Attention.after_watch {id : Nat} {key : Bytes} {attention : Attention}
    {moment : Moment} {watch : Watch}
    (isWatch : (attention.after id key moment).watch = some watch) :
    (∃ env keys reply, moment.what = .called env (.store (.versions keys)) reply ∧
      watch = { held := moment.world.store.live env.clock.now key }) ∨
    ∃ old, attention.watch = some old ∧ watch = old.on (moment.what.wrote key) := by
  by_cases aside : moment.id ≠ id ∨ moment.steers = false
  · rw [after_aside aside, Option.map_eq_some_iff] at isWatch
    obtain ⟨old, isOld, rfl⟩ := isWatch
    exact .inr ⟨old, isOld, rfl⟩
  · obtain ⟨turn, world, what⟩ := moment
    obtain ⟨rfl, steers⟩ : turn = id ∧ Moment.steers ⟨turn, world, what⟩ := by
      simpa using aside
    have still (unwritten : what.wrote key = false) (isWatch : attention.watch = some watch) :
        ∃ old, attention.watch = some old ∧ watch = old.on (what.wrote key) :=
      ⟨watch, isWatch, by rw [unwritten, Watch.on_false]⟩
    cases what with
    | accepted => simp [Attention.after] at isWatch
    | asked value => exact .inr (still rfl (by simpa [Attention.after] using isWatch))
    | answered answer =>
      simp only [Attention.after] at isWatch
      split at isWatch
      · cases isWatch
      · exact .inr (still rfl isWatch)
    | called env call reply =>
      cases call with
      | store call =>
        cases call with
        | versions keys =>
          simp only [Attention.after] at isWatch
          split at isWatch
          · cases isWatch
            exact .inl ⟨_, _, _, rfl, rfl⟩
          · exact .inr (still rfl isWatch)
        | unchanged watched => simp [Attention.after] at isWatch
        | _ => cases steers
      | _ => cases steers
    | _ => cases steers

theorem Matches.aside {id : Nat} {watched : Map Bytes (Option Nat)} {history : List Moment}
    {moment : Moment} (matching : Matches id watched history)
    (aside : moment.id ≠ id ∨ moment.steers = false) :
    Matches id watched (history ++ [moment]) := by
  intro key
  rw [attention_concat, Attention.after_aside aside, matching key, Option.map_map]
  rfl

/-- A connection that has been given the versions of some keys watches them all. -/
theorem Matches.versions {id : Nat} {watched : Map Bytes (Option Nat)} {history : List Moment}
    (matching : Matches id watched history) (world : World) (env : Env) (keys : List Bytes) :
    Matches id
      ((keys.zip (world.store.versions env.clock.now keys).2).foldl Transactions.watch watched)
      (history ++ [⟨id, world, .called env (.store (.versions keys))
        (world.store.versions env.clock.now keys).2⟩]) := by
  intro key
  rw [State.versions_eq, foldl_watch_lookup, attention_concat, matching key]
  cases watching : (attention id key history).watch with
  | none =>
    by_cases named : key ∈ keys
    · simp [Attention.after, watching, named]
    · simp [Attention.after, watching, named]
  | some watch => simp [Attention.after, watching]

/-- A connection whose watch has ended watches nothing. -/
theorem matches_empty {id : Nat} {history : List Moment}
    (unwatched : ∀ key, (attention id key history).watch = none) : Matches id ∅ history := by
  intro key
  simp [unwatched key]

/-- What a connection goes by is what has happened. -/
def Stage.Attends (id : Nat) (history : List Moment) : Stage → Prop
  | .idle client => Matches id client.transaction.watched history
  | .running asked program =>
    (∀ key, (attention id key history).asked = some asked) ∧
    ∃ phase, program.Keeps watching (LeavesWatching asked) phase ∧ Matches id phase history
  | _ => True

theorem Stage.Attends.aside {id : Nat} {history : List Moment} {moment : Moment} {stage : Stage}
    (attends : stage.Attends id history) (aside : moment.id ≠ id ∨ moment.steers = false) :
    stage.Attends id (history ++ [moment]) := by
  cases stage with
  | idle client => exact Matches.aside attends aside
  | running asked program =>
    obtain ⟨isAsked, phase, keeps, matching⟩ := attends
    refine ⟨fun key => ?_, phase, keeps, matching.aside aside⟩
    rw [attention_concat, Attention.after_aside aside]
    exact isAsked key
  | _ => exact True.intro

theorem Attention.asked_after_called (attention : Attention) (id turn : Nat) (key : Bytes)
    (world : World) (env : Env) (request : Call) (reply : request.Reply) :
    (attention.after id key ⟨turn, world, .called env request reply⟩).asked =
      attention.asked := by
  cases request with
  | store call =>
    cases call with
    | versions keys | unchanged watched =>
      simp only [Attention.after]
      split <;> rfl
    | _ => rfl
  | _ => rfl

/-- A command that makes a call goes by what has happened then. -/
theorem Stage.Attends.call {id : Nat} {history : List Moment} {asked : Value} {request : Call}
    {resume : request.Reply → Prog (Answer × Client)} {world after : World} {env : Env}
    {reply : request.Reply} (performed : world.perform env request = .done after reply)
    (attends : Stage.Attends id history (.running asked (.call request resume))) :
    Stage.Attends id (history ++ [⟨id, world, .called env request reply⟩])
      (.running asked (resume reply)) := by
  obtain ⟨isAsked, phase, keeps, matching⟩ := attends
  have stillAsked (key : Bytes) : (attention id key
      (history ++ [⟨id, world, .called env request reply⟩])).asked = some asked := by
    rw [attention_concat, Attention.asked_after_called, isAsked key]
  refine ⟨stillAsked, _, keeps.2 reply, ?_⟩
  have other (unsteered : Moment.steers ⟨id, world, .called env request reply⟩ = false)
      (same : watching.next phase request reply = phase) :
      Matches id (watching.next phase request reply)
        (history ++ [⟨id, world, .called env request reply⟩]) := by
    rw [same]
    exact matching.aside (.inr unsteered)
  cases request with
  | store call =>
    cases call with
    | versions keys =>
      cases performed
      exact matching.versions world env keys
    | unchanged watched =>
      refine matches_empty fun key => ?_
      simp [attention_concat, Attention.after]
    | _ => exact other rfl rfl
  | _ => exact other rfl rfl

namespace Pool

/-- What connections go by is what has happened. -/
structure Attended (pool : Pool) : Prop where
  proper : pool.Proper
  attends : ∀ (id : Nat) (stage : Stage), pool.stages[id]? = some stage →
    stage.Attends id pool.history
  bears : ∀ (id : Nat) (key : Bytes) (watch : Watch),
    (attention id key pool.history).watch = some watch →
    watch.Bears pool.world.store key

theorem attended_start {store : State} (proper : store.Proper) (log : Bytes) :
    (Pool.start store log).Attended := by
  refine ⟨proper_start proper log, ?_, ?_⟩ <;> simp [Pool.start, attention]

omit [Platform] in
/-- A key first watched is one the store holds, or does not hold. -/
theorem bears_fresh {world : World} {now : Instant} (proper : world.store.Proper) {key : Bytes}
    {after : State} {later : Instant}
    (touched : State.Touched later world.store after key false)
    (counted : world.store.changes ≤ after.changes) :
    Watch.Bears { held := world.store.live now key } after key := by
  have bears : Watch.Bears { held := world.store.live now key } world.store key := by
    intro entry isHeld
    have isFound := (State.live_eq_some isHeld).1
    exact ⟨proper.stamps key entry isFound, .inl isFound⟩
  simpa using bears.touched touched counted

theorem Attended.bears_step {server : Server} {pool next : Pool} {choice : Choice}
    (attended : pool.Attended) (stepped : pool.step server choice = some next) (id : Nat)
    (key : Bytes) (watch : Watch) (isWatch : (attention id key next.history).watch = some watch) :
    watch.Bears next.world.store key := by
  obtain ⟨rfl, rfl⟩ | ⟨turn, move, stage, moved, world, what, rfl, isStage, moves, rfl⟩ :=
    step_cases stepped
  · simp only [accept, attention_concat] at isWatch
    rcases Attention.after_watch isWatch with ⟨_, _, _, impossible, _⟩ | ⟨old, isOld, rfl⟩
    · cases impossible
    · rw [Happening.unwritten rfl, Watch.on_false]
      exact attended.bears id key old isOld
  · obtain ⟨now, touched, counted⟩ := attended.proper.touched isStage moves
    simp only [attention_concat] at isWatch
    rcases Attention.after_watch isWatch with ⟨env, keys, reply, isCall, rfl⟩ | ⟨old, isOld, rfl⟩
    · have touchedHere := touched key
      simp only at isCall
      subst isCall
      exact bears_fresh attended.proper.store touchedHere counted
    · exact (attended.bears id key old isOld).touched (touched key) counted

theorem Attended.step {server : Server} {pool next : Pool} {choice : Choice}
    (attended : pool.Attended) (stepped : pool.step server choice = some next) :
    next.Attended := by
  refine ⟨attended.proper.step stepped, ?_, attended.bears_step stepped⟩
  refine each_step stepped attended.attends ?_ ?_ ?_
  · rintro rfl
    refine matches_empty fun key => ?_
    simp [accept, attention_concat, Attention.after]
  · intro moment isHistory id stage other attends
    rw [isHistory]
    exact attends.aside (.inl other)
  · rintro id move stage moved world what moves isStage rfl attends
    cases moves with
    | ask client value =>
      refine ⟨fun key => ?_, _, run_watching server client value, fun key => ?_⟩
      · simp [attention_concat, Attention.after]
      · simpa [attention_concat, Attention.after] using attends key
    | hear client waiting => exact Matches.aside attends (.inr rfl)
    | call performed => exact attends.call performed
    | answer asked value client =>
      obtain ⟨isAsked, phase, leaves, matching⟩ := attends
      intro key
      rw [leaves, attention_concat]
      by_cases given : givesUpWatch asked (.reply value)
      · simp [Attention.after, isAsked key, given]
      · simpa [Attention.after, isAsked key, given] using matching key
    | _ => exact True.intro

end Pool

/-- Whenever `EXEC` makes its check, it checks the keys its connection watches, and passes
if and only if each of them is as it was when it was first watched: a key that held
something still holds that very entry and has not been written to since, and a key that
held nothing holds nothing now. -/
theorem exec_passes_iff_undisturbed (server : Server) (store : State) (proper : store.Proper)
    (log : Bytes) (choices : List Choice) (pool : Pool)
    (ran : Run.after (Pool.step server) (.start store log) choices = some pool)
    (id : Nat) (asked : Value) (watched : List (Bytes × Option Nat))
    (resume : Bool → Prog (Answer × Client))
    (isChecking : pool.stages[id]? =
      some (.running asked (.call (.store (.unchanged watched)) resume)))
    (env : Env) (after : World) (passes : Bool)
    (checked : pool.world.perform env (.store (.unchanged watched)) = .done after passes) :
    (∀ key, key ∈ watched.map Prod.fst ↔ (attention id key pool.history).watch.isSome) ∧
    (passes = true ↔ ∀ key watch, (attention id key pool.history).watch = some watch →
      watch.Undisturbed pool.world.store env.clock.now key) := by
  have attended : pool.Attended :=
    Run.invariant_always (fun pool => pool.Attended) (fun _ _ _ => Pool.Attended.step)
      (Pool.attended_start proper log) ran
  obtain ⟨-, phase, keeps, matching⟩ := attended.attends id _ isChecking
  obtain rfl : watched = phase.toList := keeps.1
  have isCheck : (pool.world.store.unchanged env.clock.now phase.toList).2 = passes := by
    cases checked
    rfl
  constructor
  · intro key
    rw [Std.ExtTreeMap.map_fst_toList_eq_keys, Std.ExtTreeMap.mem_keys,
      Std.ExtTreeMap.mem_iff_isSome_getElem?, matching key, Option.isSome_map]
  · rw [← isCheck, State.unchanged_eq_true]
    constructor
    · intro every key watch isWatch
      rw [(attended.bears id key watch isWatch).undisturbed_iff]
      refine every (key, watch.held.map Entry.version) ?_
      rw [Std.ExtTreeMap.mem_toList_iff_getElem?_eq_some, matching key, isWatch]
      rfl
    · rintro every ⟨key, version⟩ member
      rw [Std.ExtTreeMap.mem_toList_iff_getElem?_eq_some, matching key,
        Option.map_eq_some_iff] at member
      obtain ⟨watch, isWatch, rfl⟩ := member
      rw [← (attended.bears id key watch isWatch).undisturbed_iff]
      exact every key watch isWatch

end

/-- A key is set and watched, and a transaction on it is about to be let go. -/
def watchedApart : List Choice :=
  [.accept, .accept] ++ Choice.command 0 ["SET", "k", "v"] 4 ++
    Choice.command 0 ["WATCH", "k"] 1 ++ Choice.command 0 ["MULTI"] 0 ++
    Choice.command 0 ["SET", "k", "w"] 0 ++ Choice.command 1 ["GET", "k"] 1 ++
    Choice.begun 0 ["EXEC"] 0

/-- A connection checks a watch on the key, and the check passes. -/
def Stage.checksOut (store : State) : Stage → Bool
  | .running _ (.call (.store (.unchanged watched)) _) =>
    utf8 "k" ∈ watched.map Prod.fst && (store.unchanged 0 watched).2
  | _ => false

/-- A transaction on a watched key that nobody has written to passes. -/
theorem exec_passes_of_watched :
    ∃ pool, Run.after (@Pool.step Platform.ascii {}) (.start {} []) watchedApart = some pool ∧
      (@attention Platform.ascii 0 (utf8 "k") pool.history).watch.isSome ∧
      ∀ key watch, (@attention Platform.ascii 0 key pool.history).watch = some watch →
        watch.Undisturbed pool.world.store 0 key := by
  obtain ⟨pool, ran, seen⟩ := (Option.any_eq_true
    (fun pool : Pool => pool.stages[0]?.any (Stage.checksOut pool.world.store))
    (Run.after (@Pool.step Platform.ascii {}) (.start {} []) watchedApart)).mp
      (by decide +kernel)
  simp only [Option.any_eq_true] at seen
  obtain ⟨stage, isStage, checks⟩ := seen
  unfold Stage.checksOut at checks
  split at checks
  · rename_i asked watched resume
    simp only [Bool.and_eq_true, decide_eq_true_eq] at checks
    obtain ⟨isWatched, passes⟩ := @exec_passes_iff_undisturbed Platform.ascii {} {}
      State.proper_empty [] watchedApart pool ran 0 asked watched resume isStage {} _ _ rfl
    exact ⟨pool, ran, (isWatched _).mp checks.1, passes.mp checks.2⟩
  · cases checks

end RedisServer
