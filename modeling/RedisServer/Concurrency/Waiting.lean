import RedisServer.Concurrency.Handover

/-!
# Waiting for replicas to catch up

`WAIT` looks at how far along the history is, asks the replicas how far they are, and
counts those that say they are at least that far.  A command passed on by another
connection and not counted yet makes the history look shorter than it is.  As long as no
`WAIT` looks at it then, a replica it counts has taken in all that had been queued for it
when the `WAIT` came in.
-/

namespace RedisServer

variable {server : Server} {pool : Pool} {number id : Nat} {asked : Value}

/-! ## Where a replica starts counting -/

theorem eq_ofDigitChars_of_parseDigits {limit result : Nat} {overflow : IntError}
    {chars : List Char} (read : parseDigits limit overflow number chars = .ok result) :
    result = Nat.ofDigitChars 10 chars number := by
  induction chars generalizing number with
  | nil =>
    cases read
    simp
  | cons char chars ih =>
    have digit := isDigit_of_parseDigits read char (by simp)
    simp only [parseDigits, digitValue_of_isDigit digit] at read
    split at read
    · cases read
    · rw [ih read, Nat.ofDigitChars_cons, Nat.mul_comm]
      rfl

/-- What is read as a number is the digits that spell it, perhaps after a sign. -/
theorem parseU64_eq_some {text : String} (read : parseU64 text = some number) :
    ∃ digits, (text.toList = digits ∨ text.toList = '+' :: digits) ∧
      (∀ char ∈ digits, char.isDigit) ∧ number = Nat.ofDigitChars 10 digits 0 := by
  have spelled {chars : List Char}
      (read : (parseDigits u64Max .posOverflow 0 chars).toOption = some number) :
      (∀ char ∈ chars, char.isDigit) ∧ number = Nat.ofDigitChars 10 chars 0 := by
    cases parsed : parseDigits u64Max .posOverflow 0 chars with
    | error error =>
      rw [parsed] at read
      cases read
    | ok found =>
      rw [parsed] at read
      cases read
      exact ⟨isDigit_of_parseDigits parsed, eq_ofDigitChars_of_parseDigits parsed⟩
  unfold parseU64 parseUnsigned at read
  split at read
  · cases read
  · cases read
  · exact ⟨_, .inr ‹_›, spelled read⟩
  · exact ⟨_, .inl rfl, spelled read⟩

/-- What is read as a number has no space in it. -/
theorem no_space_of_parseU64 {text : String} (read : parseU64 text = some number) :
    ' ' ∉ text.toList := by
  obtain ⟨digits, spelled, areDigits, -⟩ := parseU64_eq_some read
  have noSpace : ' ' ∉ digits := fun inside => absurd (areDigits ' ' inside) (by decide)
  rcases spelled with spelled | spelled
  · rwa [spelled]
  · rw [spelled]
    simpa using noSpace

/-- A number that is read back is the one that was spelled. -/
theorem eq_of_parseU64_toString {read : Nat} (parsed : parseU64 (toString number) = some read) :
    read = number := by
  obtain ⟨digits, spelled, -, rfl⟩ := parseU64_eq_some parsed
  have written : (toString number).toList = Nat.toDigits 10 number := by simp
  rcases spelled with spelled | spelled
  · rw [← spelled, written, Nat.ofDigitChars_ten_toDigits]
  · rw [written] at spelled
    have plus := toDigits_isDigit number '+' (by simp [spelled])
    exact absurd plus (by decide)

/-- What comes after the first space of a text: all after the one pointed at, or something
with that one still in it. -/
theorem splitOnce_space {before after : List Char} {first second : String}
    (isSplit : splitOnce ' ' (String.ofList (before ++ ' ' :: after)) = some (first, second)) :
    second.toList = after ∨ ' ' ∈ second.toList := by
  have dropped : ∃ rest, (before ++ ' ' :: after).dropWhile (· ≠ ' ') = ' ' :: rest ∧
      (rest = after ∨ ' ' ∈ rest) := by
    clear isSplit
    induction before with
    | nil => exact ⟨after, by simp, .inl rfl⟩
    | cons char before ih =>
      by_cases isSpace : char = ' '
      · exact ⟨before ++ ' ' :: after, by simp [isSpace], .inr (by simp)⟩
      · simpa [isSpace] using ih
  obtain ⟨rest, isRest, cases⟩ := dropped
  simp only [splitOnce, String.toList_ofList, List.span_eq_takeWhile_dropWhile, isRest,
    Option.some.injEq, Prod.mk.injEq] at isSplit
  obtain ⟨-, rfl⟩ := isSplit
  simpa using cases

/-- Whatever id a history goes by, a replica starts counting where it was handed over. -/
theorem startsFrom_fullResync {offset start : Nat}
    (starts : startsFrom (fullResync server offset) = some start) : start = offset := by
  simp only [startsFrom, fullResync, handoverFrom] at starts
  split at starts
  · have rest : ("FULLRESYNC " ++ server.replicationId ++ " " ++ toString offset).toList.drop
        "FULLRESYNC ".length =
          server.replicationId.toList ++ ' ' :: (toString offset).toList := by
      rw [show "FULLRESYNC ".length = 11 from rfl]
      simp
    rw [rest] at starts
    obtain ⟨⟨history, written⟩, isSplit, read⟩ := Option.bind_eq_some_iff.mp starts
    rcases splitOnce_space isSplit with spelled | space
    · obtain rfl : written = toString offset := String.toList_inj.mp spelled
      exact eq_of_parseU64_toString read
    · exact absurd space (no_space_of_parseU64 read)
  · cases starts

/-! ## Where a replica has got to -/

/-- How many bytes there are in what is queued. -/
def bytes (changes : List Bytes) : Nat := (changes.map List.length).sum

theorem bytes_append (first second : List Bytes) :
    bytes (first ++ second) = bytes first + bytes second := by
  simp [bytes]

theorem bytes_singleton (change : Bytes) : bytes [change] = change.length := by
  simp [bytes]

/-- Of a queue of something at a time, the fewer are left the fewer bytes are left. -/
theorem bytes_drop_lt {changes : List Bytes} (filled : ∀ change ∈ changes, change ≠ [])
    {fewer more : Nat} (less : fewer < more) (within : more ≤ changes.length) :
    bytes (changes.drop more) < bytes (changes.drop fewer) := by
  have inside : fewer < changes.length := less.trans_le within
  have split : changes.drop fewer =
      ((changes.drop fewer).take (more - fewer)) ++ changes.drop more := by
    conv_lhs => rw [← List.take_append_drop (more - fewer) (changes.drop fewer)]
    rw [List.drop_drop, Nat.add_sub_cancel' less.le]
  rw [split, bytes_append]
  have some : 0 < bytes ((changes.drop fewer).take (more - fewer)) := by
    rw [List.drop_eq_getElem_cons inside]
    obtain ⟨rest, isRest⟩ : ∃ rest, more - fewer = rest + 1 := ⟨more - fewer - 1, by omega⟩
    have nonempty := List.length_pos_iff.mpr (filled _ (List.getElem_mem inside))
    rw [isRest, List.take_succ_cons, ← List.singleton_append, bytes_append, bytes_singleton]
    omega
  omega

/-- What a replica says it has taken in, together with what is still queued for it, is no
more than has been passed on. -/
structure Position (sent : Nat) (replica : Replica) (follower : Follower) : Prop where
  filled : ∀ change ∈ replica.changes, change ≠ []
  within : follower.taken ≤ replica.changes.length
  offset : ∀ offset, follower.offset = some offset →
    offset + bytes (replica.changes.drop follower.taken) ≤ sent
  said : ∀ offset ∈ follower.said,
    offset + bytes (replica.changes.drop follower.taken) ≤ sent
  reached : replica.reached + bytes (replica.changes.drop follower.taken) ≤ sent

namespace Position

variable {sent : Nat} {replica : Replica} {follower : Follower}

theorem send (position : Position sent replica follower) {change : Bytes}
    (filled : change ≠ []) :
    Position (sent + change.length)
      { replica with changes := replica.changes ++ [change] } follower := by
  have left : bytes ((replica.changes ++ [change]).drop follower.taken) =
      bytes (replica.changes.drop follower.taken) + change.length := by
    rw [List.drop_append_of_le_length position.within, bytes_append, bytes_singleton]
  refine ⟨?_, ?_, ?_, ?_, ?_⟩
  · intro other member
    rcases List.mem_append.mp member with old | new
    · exact position.filled other old
    · rw [List.mem_singleton.mp new]
      exact filled
  · rw [List.length_append]
    exact position.within.trans (Nat.le_add_right _ _)
  · intro offset isOffset
    have before := position.offset offset isOffset
    simp only [left]
    omega
  · intro offset isSaid
    have before := position.said offset isSaid
    simp only [left]
    omega
  · have before := position.reached
    simp only [left]
    omega

theorem takeIn (position : Position sent replica follower) {change : Bytes} {next : Follower}
    (queued : replica.changes[follower.taken]? = some change)
    (takesIn : follower.takeIn change = some next) : Position sent replica next := by
  obtain ⟨inside, isChange⟩ := List.getElem?_eq_some_iff.mp queued
  have left : bytes (replica.changes.drop follower.taken) =
      change.length + bytes (replica.changes.drop (follower.taken + 1)) := by
    rw [List.drop_eq_getElem_cons inside, isChange, ← List.singleton_append, bytes_append,
      bytes_singleton]
  unfold Follower.takeIn at takesIn
  split at takesIn
  · rename_i offset command length isOffset parsed
    cases takesIn
    have fits := consumed_le parsed
    have before := position.offset offset isOffset
    refine ⟨position.filled, inside, ?_, ?_, ?_⟩
    · rintro _ ⟨⟩
      simp only
      omega
    · intro said isSaid
      have old (member : said ∈ follower.said) := position.said said member
      simp only at isSaid ⊢
      split at isSaid
      · rcases List.mem_append.mp isSaid with member | new
        · have := old member
          omega
        · rw [List.mem_singleton.mp new]
          omega
      · have := old isSaid
        omega
    · have := position.reached
      simp only
      omega
  · cases takesIn

theorem report (position : Position sent replica follower) {offset : Nat} {said : List Nat}
    (first : follower.said = offset :: said) :
    Position sent { replica with reached := offset } { follower with said } where
  filled := position.filled
  within := position.within
  offset := position.offset
  said other member := position.said other (by simp [first, member])
  reached := position.said offset (by simp [first])

end Position

namespace Pool

/-- A replica is handed over no more of the history than there is, and none of those
followed says it has taken in more than it has. -/
structure Followed (server : Server) (pool : Pool) : Prop where
  handing : ∀ id agreement, pool.handing id = some agreement →
    ∃ offset ≤ sentBytes pool.history, agreement = fullResync server offset
  position : ∀ replica follower, pool.Follows replica follower →
    Position (sentBytes pool.history) replica follower

theorem Followed.step [Platform] {next : Pool} {choice : Choice} (followed : pool.Followed server)
    (steady : pool.Steady server) (stepped : pool.step server choice = some next) :
    next.Followed server := by
  obtain ⟨moment, isHistory, hands, serves⟩ := step_replicas steady stepped
  refine ⟨fun id agreement handing => ?_, fun replica follower follows => ?_⟩
  · rw [isHistory, sentBytes_concat]
    have known (before : pool.handing id = some agreement) :
        ∃ offset ≤ sentBytes pool.history + moment.what.sent,
          agreement = fullResync server offset := by
      obtain ⟨offset, small, isAgreement⟩ := followed.handing id agreement before
      exact ⟨offset, small.trans (Nat.le_add_right _ _), isAgreement⟩
    cases hands id agreement handing with
    | still before quiet => exact known before
    | missed before nobody => exact known before
    | looked unsent since counted =>
      refine ⟨pool.world.offset, ?_, rfl⟩
      rw [steady.balanced]
      omega
  · rw [isHistory, sentBytes_concat]
    cases serves replica follower follows with
    | still before quiet =>
      rw [quiet.unsent]
      exact followed.position replica follower before
    | sent before filled counted since =>
      rw [counted]
      exact (followed.position _ follower before).send filled
    | tookIn before quiet queued takesIn =>
      rw [quiet.unsent]
      exact (followed.position replica _ before).takeIn queued takesIn
    | reported before quiet first =>
      rw [quiet.unsent]
      exact (followed.position _ _ before).report first
    | takenOn isStage quiet =>
      obtain ⟨offset, small, rfl⟩ := followed.handing _ _ (by rw [Pool.handing, isStage]; rfl)
      rw [quiet.unsent]
      refine ⟨by simp, le_rfl, ?_, by simp, Nat.zero_le _⟩
      intro start starts
      rw [startsFrom_fullResync starts]
      exact small

end Pool

/-! ## What a connection that waits has seen -/

/-- What was shared when the command a connection is in the middle of came in. -/
def askedAt (id : Nat) (history : List Moment) : World :=
  history.foldl (fun world moment =>
    match moment.what with
    | .asked _ => if moment.id = id then moment.world else world
    | _ => world) {}

theorem askedAt_concat (id : Nat) (history : List Moment) (moment : Moment)
    (other : moment.id ≠ id ∨ ∀ value, moment.what ≠ .asked value) :
    askedAt id (history ++ [moment]) = askedAt id history := by
  simp only [askedAt, List.foldl_append, List.foldl_cons, List.foldl_nil]
  split
  · rename_i asked
    rcases other with elsewhere | unasked
    · rw [if_neg elsewhere]
    · exact absurd asked (unasked _)
  · rfl

/-- Whether a connection has been a replica's, or has ended. -/
def Stage.settled : Stage → Bool
  | .following _ => true
  | .gone => true
  | _ => false

theorem Stage.Moves.settled [Platform] {world after : World} {stage moved : Stage} {move : Move}
    {what : Happening} (moves : Stage.Moves server id world stage move moved after what)
    (settled : stage.settled) : moved.settled := by
  cases moves <;> first | rfl | cases settled

namespace Pool

/-- What was shared at some time, seen from now: its replicas are still replicas or gone,
and since then they have been sent no less than the history has grown by since it was
looked at. -/
structure Seen (pool : Pool) (before : World) (phase : Option Nat) : Prop where
  settled : ∀ old ∈ before.replicas, ∃ stage,
    pool.stages[old.connection]? = some stage ∧ stage.settled
  grown : ∀ replica ∈ pool.world.replicas, replica.closed = false →
    ∀ old ∈ before.replicas, old.connection = replica.connection →
      old.changes.length ≤ replica.changes.length ∧
      ∀ target, phase = some target →
        sentBytes pool.history ≤ target + bytes (replica.changes.drop old.changes.length)

namespace Seen

variable {before : World} {phase : Option Nat}

theorem step [Platform] {server : Server} {next : Pool} {choice : Choice}
    (seen : pool.Seen before phase) (steady : pool.Steady server)
    (stepped : pool.step server choice = some next) : next.Seen before phase := by
  refine ⟨fun old isOld => ?_, fun replica member isOpen old isOld sameConnection => ?_⟩
  · obtain ⟨found, isFound, settled⟩ := seen.settled old isOld
    obtain ⟨rfl, rfl⟩ | ⟨id, move, stage, moved, world, what, rfl, isStage, moves, rfl⟩ :=
      step_cases stepped
    · exact ⟨found, lookup_accept isFound, settled⟩
    · simp only [lookup_set isStage]
      split
      · rename_i here
        rw [here, isStage, Option.some.injEq] at isFound
        exact ⟨moved, rfl, moves.settled (isFound ▸ settled)⟩
      · exact ⟨found, isFound, settled⟩
  · obtain ⟨moment, isHistory, -, serves⟩ := step_replicas steady stepped
    obtain ⟨follower, isStage⟩ := (steady.tracked.step stepped).isOpen replica member isOpen
    rw [isHistory, sentBytes_concat]
    cases serves replica follower ⟨member, isOpen, isStage⟩ with
    | still was quiet | tookIn was quiet queued takesIn =>
      rw [quiet.unsent]
      exact seen.grown replica was.member isOpen old isOld sameConnection
    | @reported held _ _ _ was quiet first =>
      rw [quiet.unsent]
      exact seen.grown held was.member isOpen old isOld sameConnection
    | @sent held _ command was filled counted since =>
      obtain ⟨longer, grown⟩ := seen.grown held was.member isOpen old isOld sameConnection
      refine ⟨by simp only [List.length_append]; omega, fun target isTarget => ?_⟩
      have earlier := grown target isTarget
      rw [counted, List.drop_append_of_le_length longer, bytes_append, bytes_singleton]
      omega
    | takenOn handsOver quiet =>
      obtain ⟨found, isFound, settled⟩ := seen.settled old isOld
      rw [sameConnection, handsOver, Option.some.injEq] at isFound
      subst isFound
      cases settled

/-- Nothing has happened since. -/
theorem now (tracked : pool.Tracked) : pool.Seen pool.world none where
  settled old isOld := by
    cases state : old.closed with
    | false =>
      obtain ⟨follower, isFollower⟩ := tracked.isOpen old isOld state
      exact ⟨_, isFollower, rfl⟩
    | true => exact ⟨_, tracked.isClosed old isOld state, rfl⟩
  grown replica member _ old isOld sameConnection := by
    rw [List.inj_on_of_nodup_map tracked.distinct isOld member sameConnection]
    exact ⟨le_rfl, nofun⟩

/-- Looking at the offset when there is nothing to be counted. -/
theorem look (seen : pool.Seen before phase) (balanced : pool.Balanced)
    (settled : ∀ stage ∈ pool.stages, stage.owed = 0) :
    pool.Seen before (some pool.world.offset) where
  settled := seen.settled
  grown replica member isOpen old isOld sameConnection := by
    refine ⟨(seen.grown replica member isOpen old isOld sameConnection).1, ?_⟩
    rintro _ ⟨⟩
    rw [balanced.eq_offset settled]
    exact Nat.le_add_right _ _

/-- A replica counted has taken in all that had been queued for it. -/
theorem caught_up {target : Nat} (seen : pool.Seen before (some target)) {replica : Replica}
    (member : replica ∈ pool.world.replicas) (isOpen : replica.closed = false)
    {follower : Follower} (position : Position (sentBytes pool.history) replica follower)
    (reached : target ≤ replica.reached) {old : Replica} (isOld : old ∈ before.replicas)
    (sameConnection : old.connection = replica.connection) :
    old.changes.length ≤ follower.taken := by
  obtain ⟨within, grown⟩ := seen.grown replica member isOpen old isOld sameConnection
  have sent := grown target rfl
  have said := position.reached
  by_contra behind
  have more := bytes_drop_lt position.filled (Nat.lt_of_not_le behind) within
  omega

end Seen

end Pool

/-! ## Counting replicas -/

/-- Whether a connection is about to look at the offset for a `WAIT`, sent on its own or
queued in a transaction. -/
def Stage.waiting [Platform] : Stage → Bool
  | .running asked (.call .offset _) => asksFor ["WAIT", "EXEC"] asked
  | _ => false

/-- What a call that counts replicas came to. -/
def Happening.counted : Happening → Option Nat
  | .called _ (.caughtUpTo _) count => some count
  | .called _ .count count => some count
  | _ => none

namespace Pool

/-- No `WAIT` looks at the offset while a command is passed on and not counted yet. -/
def CountsApart [Platform] (pool : Pool) : Choice → Prop
  | .turn id (.call _) => ∀ stage ∈ pool.stages[id]?,
      stage.waiting → ∀ other ∈ pool.stages, other.owed = 0
  | _ => True

instance decidableCountsApart [Platform] (pool : Pool) : DecidablePred pool.CountsApart
  | .turn id (.call _) => inferInstanceAs (Decidable (∀ stage ∈ pool.stages[id]?,
      stage.waiting → ∀ other ∈ pool.stages, other.owed = 0))
  | .accept | .turn _ (.ask _) | .turn _ .answer | .turn _ .hear | .turn _ .takeOn | .turn _ .takeIn
  | .turn _ .report | .turn _ .hangUp => isTrue True.intro

/-- How many of the commands queued for it the replica on a connection has taken in. -/
def taken (pool : Pool) (id : Nat) : Nat :=
  match pool.stages[id]? with
  | some (.following follower) => follower.taken
  | _ => 0

/-- Whether a replica has taken in all that had been queued for it before. -/
def hasTakenIn (pool : Pool) (before : World) (replica : Replica) : Bool :=
  (before.queue replica.connection).length ≤ pool.taken replica.connection

/-- What the connections that wait have seen. -/
structure Waited [Platform] (pool : Pool) : Prop where
  seen : ∀ (id : Nat) (asked : Value) (program : Prog (Answer × Client)),
    pool.stages[id]? = some (.running asked program) → asksFor ["WAIT", "EXEC"] asked →
    ∃ phase, program.Keeps counting (fun _ _ => True) phase ∧
      pool.Seen (askedAt id pool.history) phase
  tallied : ∀ (asked : Value) (program : Prog (Answer × Client)),
    .running asked program ∈ pool.stages → asksFor ["WAIT"] asked →
    ∃ phase, program.Keeps tallying Tallied phase

theorem Waited.tallied_step [Platform] {next : Pool} {choice : Choice} (waited : pool.Waited)
    (stepped : pool.step server choice = some next) (asked : Value)
    (program : Prog (Answer × Client)) (member : .running asked program ∈ next.stages)
    (isWait : asksFor ["WAIT"] asked) : ∃ phase, program.Keeps tallying Tallied phase := by
  obtain ⟨rfl, rfl⟩ | ⟨id, move, stage, moved, world, what, rfl, isStage, moves, rfl⟩ :=
    step_cases stepped
  · exact waited.tallied asked program (mem_accept member) isWait
  · rcases List.mem_or_eq_of_mem_set member with old | new
    · exact waited.tallied asked program old isWait
    · have here := List.mem_of_getElem? isStage
      cases moves with
      | ask client value =>
        cases new
        exact ⟨none, run_tallying server client isWait none⟩
      | @call _ request resume env after reply performed =>
        cases new
        obtain ⟨phase, keeps⟩ := waited.tallied _ _ here isWait
        exact ⟨_, keeps.2 reply⟩
      | _ => cases new

theorem Waited.step [Platform] {server : Server} {pool next : Pool} {choice : Choice}
    (waited : pool.Waited) (steady : pool.Steady server) (apart : pool.CountsApart choice)
    (stepped : pool.step server choice = some next) : next.Waited := by
  refine ⟨?_, waited.tallied_step stepped⟩
  intro id asked program isRunning isWait
  have later {before : World} {phase : Option Nat} (seen : pool.Seen before phase) :
      next.Seen before phase := seen.step steady stepped
  obtain ⟨rfl, rfl⟩ | ⟨turn, move, stage, moved, world, what, rfl, isStage, moves, rfl⟩ :=
    step_cases stepped
  · have old := lookup_of_accept isRunning (by rintro _ ⟨⟩)
    obtain ⟨phase, keeps, seen⟩ := waited.seen id asked program old isWait
    refine ⟨phase, keeps, ?_⟩
    rw [accept, askedAt_concat]
    · exact later seen
    · exact .inr (by rintro _ ⟨⟩)
  · simp only [lookup_set isStage] at isRunning
    split at isRunning
    · rename_i here
      subst here
      rw [Option.some.injEq] at isRunning
      cases moves with
      | ask client value =>
        cases isRunning
        refine ⟨none, counting_suits.run True.intro server client _, ?_⟩
        have isNow : askedAt id (pool.history ++ [⟨id, pool.world, .asked asked⟩]) =
            pool.world := by
          simp [askedAt]
        rw [isNow]
        exact later (Seen.now steady.tracked)
      | @call _ request resume env after reply performed =>
        cases isRunning
        obtain ⟨phase, keeps, seen⟩ := waited.seen id asked _ isStage isWait
        refine ⟨_, keeps.2 reply, ?_⟩
        rw [askedAt_concat]
        · refine later ?_
          cases request with
          | offset =>
            cases performed
            exact seen.look steady.balanced (apart _ isStage isWait)
          | _ => exact seen
        · exact .inr (by rintro _ ⟨⟩)
      | _ => cases isRunning
    · rename_i elsewhere
      obtain ⟨phase, keeps, seen⟩ := waited.seen id asked program isRunning isWait
      refine ⟨phase, keeps, ?_⟩
      rw [askedAt_concat _ _ _ (.inl fun same => elsewhere same.symm)]
      exact later seen

/-- The replicas that say they are as far along as the history was when it was looked at
have taken in all that had been queued for them. -/
theorem Seen.counts {before : World} {target : Nat} (seen : pool.Seen before (some target))
    (tracked : pool.Tracked) (followed : pool.Followed server) :
    (pool.world.following.countP fun replica => target ≤ replica.reached) ≤
      pool.world.following.countP (pool.hasTakenIn before) := by
  refine List.countP_mono_left fun replica member reached => ?_
  obtain ⟨isHeld, isOpen⟩ := mem_following.mp member
  obtain ⟨follower, isFollower⟩ := tracked.isOpen replica isHeld isOpen
  have position := followed.position replica follower ⟨isHeld, isOpen, isFollower⟩
  have isTaken : pool.taken replica.connection = follower.taken := by
    rw [taken, isFollower]
  rw [hasTakenIn, isTaken, decide_eq_true_eq, World.queue]
  cases found : before.replicas.find? fun old => old.connection = replica.connection with
  | none => exact Nat.zero_le _
  | some old =>
    exact seen.caught_up isHeld isOpen position (by simpa using reached)
      (List.mem_of_find?_eq_some found) (by simpa using List.find?_some found)

/-- Every connection of a pool is where a run of it can be, as far as waiting goes. -/
structure Attentive [Platform] (server : Server) (pool : Pool) : Prop where
  steady : pool.Steady server
  followed : pool.Followed server
  waited : pool.Waited

theorem attentive_start [Platform] (server : Server) (store : State) (log : Bytes) :
    (Pool.start store log).Attentive server where
  steady := steady_start server store log
  followed := ⟨by rintro _ _ ⟨⟩, fun _ _ follows => by cases follows.member⟩
  waited := by constructor <;> simp [Pool.start]

theorem Attentive.step [Platform] {server : Server} {pool next : Pool} {choice : Choice}
    (attentive : pool.Attentive server) (apart : pool.CountsApart choice)
    (stepped : pool.step server choice = some next) : next.Attentive server where
  steady := attentive.steady.step stepped
  followed := attentive.followed.step attentive.steady stepped
  waited := attentive.waited.step attentive.steady apart stepped

/-- What a call for a `WAIT` counts is no more than the replicas that have taken in what
had been queued for them when the `WAIT`, or the transaction it is in, was sent. -/
theorem Attentive.counted_le [Platform] {env : Env} {request : Call}
    {resume : request.Reply → Prog (Answer × Client)} {after : World} {reply : request.Reply}
    {count : Nat} (attentive : pool.Attentive server)
    (isRunning : pool.stages[id]? = some (.running asked (.call request resume)))
    (isWait : asksFor ["WAIT", "EXEC"] asked)
    (performed : pool.world.perform env request = .done after reply)
    (isCount : (Happening.called env request reply).counted = some count) :
    after.following = pool.world.following ∧
      count ≤ pool.world.following.countP (pool.hasTakenIn (askedAt id pool.history)) := by
  obtain ⟨phase, keeps, seen⟩ := attentive.waited.seen id asked _ isRunning isWait
  have tracked := attentive.steady.tracked
  cases request with
  | caughtUpTo target =>
    obtain rfl : phase = some target := keeps.1
    cases performed
    cases isCount
    exact ⟨by simp [World.following], seen.counts tracked attentive.followed⟩
  | count =>
    obtain rfl : phase = some 0 := keeps.1
    cases performed
    cases isCount
    refine ⟨by simp [World.following], ?_⟩
    simpa using seen.counts tracked attentive.followed
  | _ => cases isCount

/-- A connection that goes on with its command says nothing of what replicas took in. -/
theorem hasTakenIn_resume {program resumed : Prog (Answer × Client)}
    (isRunning : pool.stages[id]? = some (.running asked program)) (world : World)
    (history : List Moment) (before : World) :
    hasTakenIn ⟨world, pool.stages.set id (.running asked resumed), history⟩ before =
      pool.hasTakenIn before := by
  funext replica
  have sameTaken : taken ⟨world, pool.stages.set id (.running asked resumed), history⟩
      replica.connection = pool.taken replica.connection := by
    by_cases here : replica.connection = id
    · simp [taken, lookup_set isRunning, here, isRunning]
    · simp [taken, lookup_set isRunning, here]
  rw [hasTakenIn, sameTaken, hasTakenIn]

end Pool

theorem asksFor_exec [Platform] (isWait : asksFor ["WAIT"] asked) :
    asksFor ["WAIT", "EXEC"] asked := by
  unfold asksFor at isWait ⊢
  split at isWait <;> simp_all

/-- What `tallying` goes by is what was counted. -/
theorem tallying_next (phase : Option Nat) (env : Env) (request : Call)
    (reply : request.Reply) :
    tallying.next phase request reply = (Happening.called env request reply).counted := by
  cases request <;> rfl

/-- In every run in which no `WAIT` looks at the offset while a command is passed on and not
counted yet, what a `WAIT` counts, on its own or in a transaction, is no more than the
replicas then followed that have taken in all that had been queued for them when it was
sent, and a number answered to a `WAIT` is one that was counted so. -/
theorem wait_counts_no_replica_behind [Platform] (server : Server) (store : State)
    (log : Bytes) (choices : List Choice) (pool next : Pool)
    (ran : Run.after (Pool.step server) (.start store log) choices = some pool)
    (apart : Run.Meets (Pool.step server) Pool.CountsApart (.start store log) choices)
    (id : Nat) (env : Env) (stepped : pool.step server (.turn id (.call env)) = some next)
    (asked : Value) (program : Prog (Answer × Client))
    (isRunning : pool.stages[id]? = some (.running asked program)) :
    (asksFor ["WAIT", "EXEC"] asked → ∀ moment count,
      next.history = pool.history ++ [moment] → moment.what.counted = some count →
      count ≤ next.world.following.countP (next.hasTakenIn (askedAt id pool.history))) ∧
    (asksFor ["WAIT"] asked → ∀ answered number client,
      next.stages[id]? = some (.running answered (.ret (.reply (.integer number), client))) →
      ∃ count : Nat, number = count ∧
        count ≤ next.world.following.countP (next.hasTakenIn (askedAt id pool.history))) := by
  have attentive : pool.Attentive server := by
    refine Run.invariant (fun pool => pool.Attentive server) ?_
      (Pool.attentive_start server store log) apart ran
    intro before choice next attentive apart stepped
    exact attentive.step apart stepped
  obtain ⟨made, -⟩ | ⟨turn, move, stage, moved, world, what, made, isStage, moves, rfl⟩ :=
    Pool.step_cases stepped
  · cases made
  · cases made
    cases isRunning.symm.trans isStage
    cases moves with
    | @call _ request resume _ _ reply performed =>
      have counted_le {count : Nat} (isWait : asksFor ["WAIT", "EXEC"] asked)
          (isCount : (Happening.called env request reply).counted = some count) :
          count ≤ world.following.countP (Pool.hasTakenIn ⟨world, pool.stages.set id
            (.running asked (resume reply)), pool.history ++
              [⟨id, pool.world, .called env request reply⟩]⟩ (askedAt id pool.history)) := by
        obtain ⟨sameFollowing, atMost⟩ :=
          attentive.counted_le isRunning isWait performed isCount
        rw [sameFollowing, Pool.hasTakenIn_resume isRunning]
        exact atMost
      constructor
      · intro isWait moment count isMoment isCount
        cases List.append_cancel_left isMoment
        exact counted_le isWait isCount
      · intro isWait answered number client answers
        obtain ⟨phase, keeps⟩ :=
          attentive.waited.tallied asked _ (List.mem_of_getElem? isRunning) isWait
        have tallied := keeps.2 reply
        have isAnswer : resume reply = .ret (.reply (.integer number), client) := by
          simp only [lookup_set isStage, if_pos, Option.some.injEq,
            Stage.running.injEq] at answers
          exact answers.2
        rw [isAnswer] at tallied
        obtain ⟨count, isCount, isNumber⟩ := tallied number rfl
        rw [tallying_next phase env] at isCount
        exact ⟨count, isNumber, counted_le (asksFor_exec isWait) isCount⟩
    | panic performed =>
      constructor
      · intro isWait moment count isMoment isCount
        cases List.append_cancel_left isMoment
        cases isCount
      · intro isWait answered number client answers
        simp [lookup_set isStage] at answers

/-! ## Counting while a command is passed on -/

/-- A replica is handed over to, and a value is set. -/
def oneReplica : List Choice :=
  [.accept, .accept, .accept, .accept] ++ Choice.command 0 ["PSYNC", "?", "-1"] 1 ++
    [.turn 0 .takeOn] ++ Choice.command 1 ["SET", "k", "v"] 4

/-- The replica reports on the value before the client that set it counts. -/
def waitsApart : List Choice :=
  oneReplica ++ Choice.begun 1 ["WAIT", "1", "0"] 4 ++
    [.turn 0 .takeIn, .turn 0 .takeIn, .turn 0 .report]

/-- A longer value is passed on and not counted yet, and the replica reports on it because
another client waits.  Only then is a value set by a client that waits for it. -/
def waitRace : List Choice :=
  oneReplica ++ Choice.begun 2 ["SET", "k", "value"] 3 ++ Choice.begun 3 ["WAIT", "1", "0"] 2 ++
    [.turn 0 .takeIn, .turn 0 .takeIn, .turn 0 .takeIn, .turn 0 .report] ++
    Choice.command 1 ["SET", "l", "w"] 4 ++ Choice.begun 1 ["WAIT", "1", "0"] 5

/-- Whether a connection is to be answered a number. -/
def Stage.answersWith (stage : Stage) (number : Int) : Bool :=
  match stage with
  | .running _ (.ret (.reply (.integer answered), _)) => answered = number
  | _ => false

theorem Stage.exists_of_answersWith {stage : Stage} {number : Int}
    (answers : stage.answersWith number) :
    ∃ asked client, stage = .running asked (.ret (.reply (.integer number), client)) := by
  unfold answersWith at answers
  split at answers
  · rename_i asked answered client
    obtain rfl : answered = number := by simpa using answers
    exact ⟨asked, client, rfl⟩
  · cases answers

/-- Whether a connection is in the middle of a `WAIT`. -/
def Stage.runsWait [Platform] : Stage → Bool
  | .running asked _ => asksFor ["WAIT"] asked
  | _ => false

/-- A replica that has reported on the value is counted. -/
theorem wait_counts_no_replica_behind_apart :
    ∃ pool next asked client,
      Run.after (@Pool.step Platform.ascii {}) (.start {} []) waitsApart = some pool ∧
      @Pool.step Platform.ascii {} pool (.turn 1 (.call {})) = some next ∧
      next.stages[1]? = some (.running asked (.ret (.reply (.integer 1), client))) ∧
      1 ≤ next.world.following.countP (next.hasTakenIn (askedAt 1 pool.history)) := by
  have apart : Run.Meets (@Pool.step Platform.ascii {}) (@Pool.CountsApart Platform.ascii)
      (.start {} []) waitsApart := by decide +kernel
  obtain ⟨pool, ran, seen⟩ := (Option.any_eq_true
    (fun pool : Pool =>
      pool.stages[1]?.any (@Stage.runsWait Platform.ascii) &&
      (@Pool.step Platform.ascii {} pool (.turn 1 (.call {}))).any fun next =>
        next.stages[1]?.any (Stage.answersWith · 1))
    (Run.after (@Pool.step Platform.ascii {}) (.start {} []) waitsApart)).mp
      (by decide +kernel)
  simp only [Bool.and_eq_true, Option.any_eq_true] at seen
  obtain ⟨⟨stage, isStage, waits⟩, next, stepped, answering, isAnswering, answers⟩ := seen
  obtain ⟨asked, client, rfl⟩ := Stage.exists_of_answersWith answers
  refine ⟨pool, next, asked, client, ran, stepped, isAnswering, ?_⟩
  unfold Stage.runsWait at waits
  split at waits
  · obtain ⟨count, isCount, atMost⟩ := (@wait_counts_no_replica_behind Platform.ascii {} {} []
      waitsApart pool next ran apart 1 {} stepped _ _ isStage).2 waits _ _ _ isAnswering
    omega
  · cases waits

/-- A replica is counted that has not taken in the value the client set before it asked. -/
theorem wait_race_counts_behind :
    ∃ pool asked client replica,
      Run.after (@Pool.step Platform.ascii {}) (.start {} []) waitRace = some pool ∧
      pool.stages[1]? = some (.running asked (.ret (.reply (.integer 1), client))) ∧
      pool.world.following[0]? = some replica ∧ pool.world.following.length = 1 ∧
      replica.connection = 0 ∧ pool.taken 0 = 3 ∧
      replica.changes[3]? = some (typed ["SET", "l", "w"]).encode ∧
      pool.world.following.countP (pool.hasTakenIn (askedAt 1 pool.history)) = 0 := by
  obtain ⟨pool, ran, seen⟩ := (Option.any_eq_true
    (fun pool : Pool =>
      pool.stages[1]?.any (Stage.answersWith · 1) &&
      (pool.world.following[0]?.any fun replica =>
        replica.connection == 0 &&
        replica.changes[3]? == some (typed ["SET", "l", "w"]).encode) &&
      pool.world.following.length == 1 && pool.taken 0 == 3 &&
      pool.world.following.countP (pool.hasTakenIn (askedAt 1 pool.history)) == 0)
    (Run.after (@Pool.step Platform.ascii {}) (.start {} []) waitRace)).mp
      (by decide +kernel)
  simp only [Bool.and_eq_true, Option.any_eq_true, beq_iff_eq] at seen
  obtain ⟨⟨⟨⟨⟨stage, isStage, answers⟩, replica, isReplica, here, queued⟩, alone⟩, taken⟩,
    behind⟩ := seen
  obtain ⟨asked, client, rfl⟩ := Stage.exists_of_answersWith answers
  exact ⟨pool, asked, client, replica, ran, isStage, isReplica, alone, here, taken, queued,
    behind⟩

end RedisServer
