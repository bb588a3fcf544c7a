import RedisServer.Concurrency.Storing

/-!
# Transactions and the writes of others

`EXEC` checks what its connection watches in one step and carries its commands out in later
ones, and holds nothing in between.  Another connection's write may fall between the two,
and is then written over by a transaction whose check knew nothing of it.  It cannot as
long as nobody asks for a write while a transaction is under way, nor for a transaction
while a write is.
-/

namespace RedisServer

/-! ## What a command asks of the store -/

/-- The commands that may write to the store. -/
def writers : List String :=
  ["SET", "INCR", "RPUSH", "LPUSH", "LPOP", "XADD", "ZADD", "ZREM", "GEOADD", "BLPOP", "EXEC"]

/-- The calls that do not check what a connection watches. -/
def Call.Unchecking : Call → Prop
  | .store (.unchanged _) => False
  | _ => True

def unchecking : Protocol calls Unit where
  allows _ call := call.Unchecking
  next _ _ _ := ()

theorem unchecking_serves : Serves unchecking fun _ => True := by
  refine .of_store (fun call apart _ _ => ⟨?_, fun _ => True.intro⟩) fun call notStore _ _ =>
    ⟨?_, fun _ => True.intro⟩
  · cases call with
    | unchanged watched => exact apart.elim
    | _ => exact True.intro
  · cases call with
    | store call => exact absurd rfl (notStore call)
    | _ => exact True.intro

theorem Transactions.steer_unchecking {command : Command} {transaction : Transaction}
    {steered : Prog (Transactions.Steered × Transaction)} (notExec : command.uppercased ≠ "EXEC")
    (found : Transactions.steer command transaction = some steered) :
    steered.Makes Call.Unchecking := by
  unfold Transactions.steer at found
  split at found
  · cases found
    exact True.intro
  · exact absurd ‹_› notExec
  · cases found
    split
    · exact True.intro
    · exact True.intro
    · exact ⟨True.intro, fun _ => True.intro⟩
  · cases found
    exact True.intro
  · cases found

section

variable [Platform] {server : Server} {client : Client} {asked : Value}

/-- What is asked for, if it is no `EXEC`, makes the calls of one command or of `WATCH`. -/
theorem run_makes {allowed : Call → Prop} (notExec : asksFor ["EXEC"] asked = false)
    (dispatched : ∀ command, Command.parse asked = .ok command →
      (dispatch server client command).Makes allowed)
    (steers : ∀ call : Call, call.Watches → call.Unchecking → allowed call) :
    (run server client asked).Makes allowed := by
  unfold run
  cases parsed : Command.parse asked with
  | error refusal => exact True.intro
  | ok command =>
    replace notExec : command.uppercased ≠ "EXEC" := by simpa [asksFor, parsed] using notExec
    dsimp only
    unfold runCommand
    split
    · exact True.intro
    split
    · exact True.intro
    split
    · exact True.intro
    refine Program.Makes.map ?_ _
    unfold carryOut
    split
    · exact dispatched command parsed
    · rename_i steered found
      refine (Transactions.steer_execute found).bind_makes
        (((Transactions.steer_watches found).and
          (Transactions.steer_unchecking notExec found)).mono fun call both =>
            steers call both.1 both.2) ?_
      rintro ⟨_ | queued, transaction⟩ isExec
      · exact True.intro
      · exact absurd (isExec queued rfl) notExec

/-- Nothing but an `EXEC` checks what is watched. -/
theorem run_unchecking (notExec : asksFor ["EXEC"] asked = false) :
    (run server client asked).Makes Call.Unchecking := by
  refine run_makes notExec (fun command _ => ?_) fun _ _ => id
  have keeps : (dispatch server client command).Keeps unchecking (fun _ _ => True) () :=
    unchecking_serves.dispatch True.intro server client command
  exact keeps.makes fun _ _ => id

/-- A command that may not write makes no call that does. -/
theorem run_reads (reads : asksFor writers asked = false) :
    (run server client asked).Makes Call.Harmless := by
  have not_mem {command : Command} (parsed : Command.parse asked = .ok command) :
      command.uppercased ∉ writers := by
    simpa [asksFor, parsed] using reads
  refine run_makes ?_ (fun command parsed => ?_) fun call watches _ => ?_
  · unfold asksFor
    split
    · rename_i command parsed
      have := not_mem parsed
      simp_all [writers]
    · rfl
  · have unwriting := not_mem parsed
    simp only [writers, List.mem_cons, List.not_mem_nil, or_false, not_or] at unwriting
    have unrecorded : recordedAsSent command.uppercased = false := by
      simp [recordedAsSent, unwriting]
    have notBlpop : command.uppercased ≠ "BLPOP" := by simp [unwriting]
    refine (runAgainst_harmless unrecorded notBlpop server client).bind fun replied => ?_
    rw [afterwards_unwritten (.inl (by simp [writtenDown, unrecorded, notBlpop]))]
    exact True.intro
  · unfold Call.Watches at watches
    split at watches
    · exact True.intro
    · exact True.intro
    · exact watches.elim

end

/-! ## What happens between a check and the end of a transaction -/

namespace Happening

/-- Whether a check passed that lets a transaction go. -/
def letsGo : Happening → Bool
  | .called _ (.store (.unchanged _)) passed => passed
  | _ => false

def isAsked : Happening → Bool
  | .asked _ => true
  | _ => false

/-- What was called without harm has written to no key. -/
theorem unwritten_of_harmless {env : Env} {call : Call} {reply : call.Reply}
    (harmless : call.Harmless) (key : Bytes) : (called env call reply).wrote key = false := by
  cases call with
  | store call =>
    cases call with
    | on target op => simp [wrote, StoreCall.wrote, KeyOp.wrote_of_looks harmless]
    | blpop target => exact harmless.elim
    | _ => rfl
  | _ => rfl

end Happening

namespace Stage

/-- Whether the connection has calls of its command left to make. -/
def calling : Stage → Bool
  | .running _ (.call _ _) => true
  | _ => false

/-- Whether the connection is in the middle of one of these commands. -/
def doing [Platform] (names : List String) : Stage → Bool
  | .running asked (.call _ _) => asksFor names asked
  | _ => false

/-- Whether what a connection is in the middle of keeps another from being asked this. -/
def bars [Platform] (value : Value) (stage : Stage) : Bool :=
  stage.doing ["EXEC"] && asksFor writers value || stage.doing writers && asksFor ["EXEC"] value

/-- A connection in the middle of a command makes only the calls the command may make. -/
def Befitting [Platform] : Stage → Prop
  | .running asked program =>
    (asksFor writers asked = false → program.Makes Call.Harmless) ∧
      (asksFor ["EXEC"] asked = false → program.Makes Call.Unchecking)
  | _ => True

end Stage

/-- This is what has happened from a check that passed on, with the connection still on the
same command. -/
structure Since (check : Moment) (between : List Moment) : Prop where
  passed : check.what.letsGo = true
  sameCommand : ∀ moment ∈ between, moment.id = check.id → moment.what.isAsked = false

/-- Between a check that passes and a later call of the same command, nobody else writes to
any key. -/
def Isolated (history : List Moment) : Prop :=
  ∀ before check between call after,
    history = before ++ check :: (between ++ call :: after) → Since check between →
    call.id = check.id → call.what.isCalled = true →
    ∀ moment ∈ between, moment.id ≠ check.id → ∀ key, moment.what.wrote key = false

section

variable [Platform] {server : Server} {id : Nat} {world after : World} {stage moved : Stage}
  {move : Move} {what : Happening}

theorem Stage.asksFor_of_doing {asked : Value} {program : Prog (Answer × Client)}
    {names : List String} (does : (Stage.running asked program).doing names = true) :
    asksFor names asked = true := by
  cases program with
  | ret answered => cases does
  | call request resume => exact does

/-- A connection is in the middle of what it was in the middle of, or of what it is just
asked. -/
theorem Stage.Moves.doing (moves : Stage.Moves server id world stage move moved after what)
    {names : List String} (does : moved.doing names = true) :
    stage.doing names = true ∨ ∃ value, move = .ask value ∧ asksFor names value = true := by
  cases moves with
  | ask client value => exact .inr ⟨value, rfl, Stage.asksFor_of_doing does⟩
  | call performed => exact .inl (Stage.asksFor_of_doing does)
  | _ => cases does

/-- Without a call to make, a connection makes none until it is asked for something. -/
theorem Stage.Moves.calling (moves : Stage.Moves server id world stage move moved after what)
    (notAsked : what.isAsked = false) (calls : moved.calling = true ∨ what.isCalled = true) :
    stage.calling = true := by
  cases moves with
  | ask client value => cases notAsked
  | call performed => rfl
  | panic performed => rfl
  | _ => rcases calls with calls | calls <;> cases calls

theorem Stage.Moves.befitting (moves : Stage.Moves server id world stage move moved after what)
    (befitting : stage.Befitting) : moved.Befitting := by
  cases moves with
  | ask client value => exact ⟨run_reads, run_unchecking⟩
  | call performed =>
    exact ⟨fun reads => (befitting.1 reads).2 _, fun notExec => (befitting.2 notExec).2 _⟩
  | _ => exact True.intro

/-- A connection that is in the middle of nothing that writes does not write. -/
theorem Stage.Moves.unwritten (moves : Stage.Moves server id world stage move moved after what)
    (befitting : stage.Befitting) (reads : stage.doing writers = false) (key : Bytes) :
    what.wrote key = false := by
  cases moves with
  | call performed => exact Happening.unwritten_of_harmless (befitting.1 reads).1 key
  | _ => rfl

/-- A check that passes is made by a connection in the middle of an `EXEC`, which it stays
in the middle of if it has anything left to do. -/
theorem Stage.Moves.letsGo (moves : Stage.Moves server id world stage move moved after what)
    (befitting : stage.Befitting) (passed : what.letsGo = true) (calls : moved.calling = true) :
    moved.doing ["EXEC"] = true := by
  cases moves with
  | @call asked request resume env _ reply performed =>
    have isExec : asksFor ["EXEC"] asked = true := by
      by_contra notExec
      have unchecking := (befitting.2 (by simpa using notExec)).1
      unfold Happening.letsGo at passed
      split at passed
      · rename_i same
        cases same
        exact unchecking
      · cases passed
    cases next : resume reply with
    | ret answered => simp [next, Stage.calling] at calls
    | call request resume => simpa [Stage.doing] using isExec
  | _ => cases passed

end

namespace Pool

/-- Nobody asks for a write while somebody else is in the middle of a transaction, nor for
a transaction while somebody else is in the middle of a write. -/
def admits [Platform] (pool : Pool) : Choice → Bool
  | .turn id (.ask value) => (List.range pool.stages.length).all fun other =>
      other == id || !pool.stages[other]?.any (Stage.bars value)
  | _ => true

/-- No two connections are in the middle of a transaction and a write, and nobody has broken
in on a transaction so far. -/
structure Unbroken [Platform] (pool : Pool) : Prop where
  befitting : ∀ (id : Nat) (stage : Stage), pool.stages[id]? = some stage → stage.Befitting
  apart : ∀ (id other : Nat) (stage beside : Stage), pool.stages[id]? = some stage →
    pool.stages[other]? = some beside → id ≠ other → stage.doing ["EXEC"] = true →
    beside.doing writers = false
  isolated : Isolated pool.history
  past : ∀ before check between, pool.history = before ++ check :: between →
    Since check between → ∀ stage, pool.stages[check.id]? = some stage → stage.calling = true →
    stage.doing ["EXEC"] = true ∧
      ∀ moment ∈ between, moment.id ≠ check.id → ∀ key, moment.what.wrote key = false

variable [Platform] {server : Server} {pool next : Pool} {choice : Choice}

theorem unbroken_start (store : State) (log : Bytes) : (start store log).Unbroken where
  befitting id stage isStage := by simp [start] at isStage
  apart id other stage beside isStage := by simp [start] at isStage
  isolated before check between call after isHistory := by simp [start] at isHistory
  past before check between isHistory := by simp [start] at isHistory

theorem not_bars_of_admits {id other : Nat} {value : Value} {beside : Stage}
    (admitted : pool.admits (.turn id (.ask value)) = true)
    (isBeside : pool.stages[other]? = some beside) (elsewhere : other ≠ id) :
    beside.bars value = false := by
  have within := (List.getElem?_eq_some_iff.mp isBeside).1
  simp only [admits, List.all_eq_true, List.mem_range] at admitted
  simpa [elsewhere, isBeside] using admitted other within

theorem Unbroken.apart_step (unbroken : pool.Unbroken) (admitted : pool.admits choice = true)
    (stepped : pool.step server choice = some next) {id other : Nat} {stage beside : Stage}
    (isStage : next.stages[id]? = some stage) (isBeside : next.stages[other]? = some beside)
    (elsewhere : id ≠ other) (executes : stage.doing ["EXEC"] = true) :
    beside.doing writers = false := by
  obtain ⟨rfl, rfl⟩ | ⟨turn, move, old, moved, world, what, rfl, isOld, moves, rfl⟩ :=
    step_cases stepped
  · rw [accept_lookup] at isStage isBeside
    split at isStage
    · cases isStage
      cases executes
    split at isBeside
    · cases isBeside
      rfl
    · exact unbroken.apart id other stage beside isStage isBeside elsewhere executes
  · simp only [lookup_set isOld] at isStage isBeside
    split at isStage
    · rename_i isTurn
      cases isStage
      subst isTurn
      rw [if_neg fun same => elsewhere same.symm] at isBeside
      rcases moves.doing executes with executing | ⟨value, rfl, asked⟩
      · exact unbroken.apart id other old beside isOld isBeside elsewhere executing
      · have free := not_bars_of_admits admitted isBeside fun same => elsewhere same.symm
        simp only [Stage.bars, asked, Bool.and_true, Bool.or_eq_false_iff] at free
        exact free.2
    · split at isBeside
      · rename_i isTurn
        cases isBeside
        subst isTurn
        rw [Bool.eq_false_iff]
        intro writes
        rcases moves.doing writes with writing | ⟨value, rfl, asked⟩
        · cases writing.symm.trans
            (unbroken.apart id other stage old isStage isOld elsewhere executes)
        · have free := not_bars_of_admits admitted isStage elsewhere
          simp [Stage.bars, asked, executes] at free
      · exact unbroken.apart id other stage beside isStage isBeside elsewhere executes

/-- A connection that has a call to make after a step without being asked for anything had
one to make before. -/
theorem calling_of_step (stepped : pool.step server choice = some next) {moment : Moment}
    (isHistory : next.history = pool.history ++ [moment]) {id : Nat} {stage : Stage}
    (isStage : next.stages[id]? = some stage) (calls : stage.calling = true)
    (notAsked : moment.id = id → moment.what.isAsked = false) :
    ∃ old, pool.stages[id]? = some old ∧ old.calling = true ∧
      ∀ names, old.doing names = true → stage.doing names = true := by
  obtain ⟨rfl, rfl⟩ | ⟨turn, move, old, moved, world, what, rfl, isOld, moves, rfl⟩ :=
    step_cases stepped
  · rw [accept_lookup] at isStage
    split at isStage
    · cases isStage
      cases calls
    · exact ⟨stage, isStage, calls, fun _ does => does⟩
  · cases List.append_cancel_left isHistory
    simp only [lookup_set isOld] at isStage
    split at isStage
    · rename_i isTurn
      cases isStage
      subst isTurn
      refine ⟨old, isOld, moves.calling (notAsked rfl) (.inl calls), fun names does => ?_⟩
      cases moves with
      | ask client value => cases notAsked rfl
      | @call asked request resume env _ reply performed =>
        cases next : resume reply with
        | ret answered => simp [next, Stage.calling] at calls
        | call request resume => exact does
      | _ => cases calls
    · exact ⟨stage, isStage, calls, fun _ does => does⟩

/-- What is called was about to be called. -/
theorem calling_of_called (stepped : pool.step server choice = some next) {moment : Moment}
    (isHistory : next.history = pool.history ++ [moment]) (isCalled : moment.what.isCalled = true) :
    ∃ stage, pool.stages[moment.id]? = some stage ∧ stage.calling = true := by
  obtain ⟨rfl, rfl⟩ | ⟨turn, move, stage, moved, world, what, rfl, isStage, moves, rfl⟩ :=
    step_cases stepped
  · cases List.append_cancel_left isHistory
    cases isCalled
  · cases List.append_cancel_left isHistory
    refine ⟨stage, isStage, moves.calling ?_ (.inr isCalled)⟩
    cases moves <;> first | rfl | cases isCalled

/-- While a connection is in the middle of a transaction, the others write nothing. -/
theorem Unbroken.unwritten (unbroken : pool.Unbroken)
    (stepped : pool.step server choice = some next) {moment : Moment}
    (isHistory : next.history = pool.history ++ [moment]) {id : Nat} {stage : Stage}
    (isStage : pool.stages[id]? = some stage) (executes : stage.doing ["EXEC"] = true)
    (elsewhere : moment.id ≠ id) (key : Bytes) : moment.what.wrote key = false := by
  obtain ⟨rfl, rfl⟩ | ⟨turn, move, old, moved, world, what, rfl, isOld, moves, rfl⟩ :=
    step_cases stepped
  · cases List.append_cancel_left isHistory
    rfl
  · cases List.append_cancel_left isHistory
    exact moves.unwritten (unbroken.befitting turn old isOld)
      (unbroken.apart id turn stage old isStage isOld (fun same => elsewhere same.symm) executes)
      key

/-- What is known of those past a check holds after a step. -/
theorem Unbroken.past_step (unbroken : pool.Unbroken)
    (stepped : pool.step server choice = some next) {before between : List Moment}
    {check : Moment} (isNext : next.history = before ++ check :: between)
    (since : Since check between) {stage : Stage} (isStage : next.stages[check.id]? = some stage)
    (calls : stage.calling = true) :
    stage.doing ["EXEC"] = true ∧
      ∀ moment ∈ between, moment.id ≠ check.id → ∀ key, moment.what.wrote key = false := by
  obtain ⟨moment, isHistory⟩ := history_of_step stepped
  rw [isHistory] at isNext
  rcases concat_eq_append_cons isNext with ⟨-, rfl, rfl⟩ | ⟨between, isBefore, rfl⟩
  · -- the check is the step itself
    refine ⟨?_, by simp⟩
    obtain ⟨rfl, rfl⟩ | ⟨turn, move, old, moved, world, what, rfl, isOld, moves, rfl⟩ :=
      step_cases stepped
    · cases List.append_cancel_left isHistory
      cases since.passed
    · cases List.append_cancel_left isHistory
      simp only [lookup_set isOld, if_true] at isStage
      cases isStage
      exact moves.letsGo (unbroken.befitting turn old isOld) since.passed calls
  · have sinceBefore : Since check between :=
      ⟨since.passed, fun other member => since.sameCommand other (List.mem_append_left _ member)⟩
    obtain ⟨old, isOld, callsBefore, does⟩ := calling_of_step stepped isHistory isStage calls
      (since.sameCommand moment (by simp))
    obtain ⟨executes, unwritten⟩ :=
      unbroken.past before check between isBefore sinceBefore old isOld callsBefore
    refine ⟨does _ executes, fun other member elsewhere => ?_⟩
    rcases List.mem_append.mp member with earlier | isMoment
    · exact unwritten other earlier elsewhere
    · cases List.mem_singleton.mp isMoment
      exact unbroken.unwritten stepped isHistory isOld executes elsewhere

theorem Unbroken.isolated_step (unbroken : pool.Unbroken)
    (stepped : pool.step server choice = some next) : Isolated next.history := by
  obtain ⟨moment, isHistory⟩ := history_of_step stepped
  intro before check between call after isNext since sameId isCalled
  rw [isHistory, ← List.cons_append, ← List.append_assoc] at isNext
  rcases concat_eq_append_cons isNext with ⟨isBefore, rfl, -⟩ | ⟨after, isBefore, -⟩
  · obtain ⟨stage, isStage, calls⟩ := calling_of_called stepped isHistory isCalled
    rw [sameId] at isStage
    exact (unbroken.past before check between isBefore.symm since stage isStage calls).2
  · rw [List.append_assoc, List.cons_append] at isBefore
    exact unbroken.isolated before check between call after isBefore since sameId isCalled

theorem Unbroken.step (unbroken : pool.Unbroken) (admitted : pool.admits choice = true)
    (stepped : pool.step server choice = some next) : next.Unbroken where
  befitting := each_step stepped unbroken.befitting (fun _ => True.intro)
    (fun _ _ _ _ _ => id) fun _ _ _ _ _ _ moves _ _ => moves.befitting
  apart _ _ _ _ := unbroken.apart_step admitted stepped
  isolated := unbroken.isolated_step stepped
  past _ _ _ isNext since _ := unbroken.past_step stepped isNext since

end Pool

/-- If nobody asks for a write while somebody else is in the middle of a transaction, nor
for a transaction while somebody else is in the middle of a write, then no transaction that
passed its check is broken in on: up to the last call it makes, nobody but its own
connection writes to any key. -/
theorem exec_isolated [Platform] (server : Server) (store : State) (log : Bytes)
    (choices : List Choice) (pool : Pool)
    (ran : Run.after (Pool.step server) (.start store log) choices = some pool)
    (admitted : Run.Meets (Pool.step server) (fun pool choice => pool.admits choice = true)
      (.start store log) choices)
    (before : List Moment) (check : Moment) (between : List Moment) (call : Moment)
    (after : List Moment)
    (isHistory : pool.history = before ++ check :: (between ++ call :: after))
    (since : Since check between)
    (sameId : call.id = check.id) (isCalled : call.what.isCalled = true)
    (moment : Moment) (member : moment ∈ between) (elsewhere : moment.id ≠ check.id)
    (key : Bytes) : moment.what.wrote key = false :=
  have unbroken : pool.Unbroken :=
    Run.invariant Pool.Unbroken (fun _ _ _ => Pool.Unbroken.step) (Pool.unbroken_start store log)
      admitted ran
  unbroken.isolated before check between call after isHistory since sameId isCalled moment
    member elsewhere key

/-- A connection passes its check, somebody else does something, and the connection writes. -/
theorem split_at_check {choices : List Choice} {length : Nat} {sees : Happening → Bool}
    (seen : (Run.after (@Pool.step .ascii {}) (.start {} []) choices).any (fun pool =>
      pool.history[10]?.any fun check => check.what.letsGo &&
        (pool.history.drop 11)[length]?.any fun call => call.id == check.id &&
          call.what.isCalled && call.what.wrote (utf8 "k") &&
          ((pool.history.drop 11).take length).all (fun moment => moment.id != check.id) &&
          ((pool.history.drop 11).take length).any fun moment => sees moment.what) = true) :
    ∃ pool before check between call after,
      Run.after (@Pool.step .ascii {}) (.start {} []) choices = some pool ∧
      pool.history = before ++ check :: (between ++ call :: after) ∧ Since check between ∧
      call.id = check.id ∧ call.what.isCalled = true ∧ call.what.wrote (utf8 "k") = true ∧
      ∃ moment ∈ between, moment.id ≠ check.id ∧ sees moment.what = true := by
  obtain ⟨pool, ran, seen⟩ := (Option.any_eq_true _ _).mp seen
  simp only [Option.any_eq_true, Bool.and_eq_true, beq_iff_eq, List.all_eq_true, bne_iff_ne,
    List.any_eq_true] at seen
  obtain ⟨check, isCheck, passed, call, isCall, ⟨⟨⟨sameId, isCalled⟩, wrote⟩, elsewhere⟩, moment,
    member, sees⟩ := seen
  have since : Since check ((pool.history.drop 11).take length) :=
    ⟨passed, fun other member same => absurd same (elsewhere other member)⟩
  have isHistory := (eq_take_cons_drop isCheck).trans
    (congrArg (_ ++ check :: ·) (eq_take_cons_drop isCall))
  exact ⟨pool, _, check, _, call, _, ran, isHistory, since, sameId, isCalled, wrote, moment, member,
    elsewhere moment member, sees⟩

/-- A key is watched and a transaction on it passes its check. -/
def passesCheck : List Choice :=
  [.accept, .accept] ++ Choice.command 0 ["WATCH", "k"] 1 ++ Choice.command 0 ["MULTI"] 0 ++
    Choice.command 0 ["SET", "k", "v"] 0 ++ Choice.begun 0 ["EXEC"] 1

/-- Somebody else reads the key before the transaction is done, and writes to it afterwards. -/
def readInBetween : List Choice :=
  passesCheck ++ Choice.command 1 ["GET", "k"] 1 ++ List.replicate 4 (.turn 0 (.call {})) ++
    [.turn 0 .answer] ++ Choice.command 1 ["SET", "k", "w"] 4

theorem exec_isolated_from_reader :
    ∃ pool, Run.after (@Pool.step .ascii {}) (.start {} []) readInBetween = some pool ∧
      ∃ before check between call after,
        pool.history = before ++ check :: (between ++ call :: after) ∧
        Since check between ∧ call.id = check.id ∧ call.what.wrote (utf8 "k") = true ∧
        ∃ moment ∈ between, moment.id ≠ check.id ∧ moment.what.onStore = true ∧
          moment.what.wrote (utf8 "k") = false := by
  have admitted : Run.Meets (@Pool.step .ascii {})
      (fun pool choice => @Pool.admits .ascii pool choice = true) (.start {} []) readInBetween := by
    decide +kernel
  obtain ⟨pool, before, check, between, call, after, ran, isHistory, since, sameId, isCalled, wrote,
    moment, member, elsewhere, onStore⟩ :=
      @split_at_check readInBetween 3 Happening.onStore (by decide +kernel)
  refine ⟨pool, ran, before, check, between, call, after, isHistory, since, sameId, wrote,
    moment, member, elsewhere, onStore, ?_⟩
  exact @exec_isolated .ascii {} {} [] readInBetween pool ran admitted before check between call
    after isHistory since sameId isCalled moment member elsewhere _

/-- The write comes before the transaction is done. -/
def writtenInBetween : List Choice :=
  passesCheck ++ Choice.command 1 ["SET", "k", "w"] 4 ++
    List.replicate 4 (.turn 0 (.call {})) ++ [.turn 0 .answer]

theorem exec_overwrites :
    ∃ pool, Run.after (@Pool.step .ascii {}) (.start {} []) writtenInBetween = some pool ∧
      ∃ before check between call after,
        pool.history = before ++ check :: (between ++ call :: after) ∧
        Since check between ∧ call.id = check.id ∧ call.what.wrote (utf8 "k") = true ∧
        ∃ moment ∈ between, moment.id ≠ check.id ∧ moment.what.wrote (utf8 "k") = true := by
  obtain ⟨pool, before, check, between, call, after, ran, isHistory, since, sameId, -, wrote,
    written⟩ := @split_at_check writtenInBetween 6 (fun what => what.wrote (utf8 "k"))
      (by decide +kernel)
  exact ⟨pool, ran, before, check, between, call, after, isHistory, since, sameId, wrote, written⟩

end RedisServer
