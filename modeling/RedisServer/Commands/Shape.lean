import RedisServer.Commands.Dispatch
import RedisServer.Server.Frames
import RedisServer.Store.Invariant

/-!
# What each command asks of the store

The commands that are recorded as they came in make at most one call on the store,
on one key, and answer with an error only if it wrote nothing.  `BLPOP` may wait
between its call and its reply.  No other command makes a call that writes.
-/

namespace RedisServer

variable {name : String} {args : List Bytes} {program : Prog Value} {server : Server} {call : Call}
  {command : Command} {error : Value} {members : List (Float × Bytes)}

/-- The calls that leave what the store holds and the log alone. -/
def Call.Harmless : Call → Prop
  | .store (.on _ op) => op.writes = false
  | .store (.blpop _) => False
  | .receive _ _ => False
  | .record _ => False
  | _ => True

/-- The harmless calls that leave the passwords and the channels alone as well. -/
def Call.Quiet : Call → Prop
  | .store (.on _ op) => op.writes = false
  | .store (.blpop _) => False
  | .receive _ _ => False
  | .record _ => False
  | .addPassword _ => False
  | .joined _ _ => False
  | .left _ _ => False
  | .publish _ _ => False
  | _ => True

/-- The calls that only look at what the store holds and at the server, and at neither
what is watched nor how far the replicas are. -/
def Call.Looks : Call → Prop
  | .store (.on _ op) => op.writes = false
  | .store (.keys _) => True
  | .store (.resolveReads _) => True
  | .store (.xread _) => True
  | .store (.xreadOrWatch _) => True
  | .notified _ _ => True
  | .now => True
  | .offset => True
  | .hashedPasswords => True
  | .wantsNoPassword => True
  | .accepts _ => True
  | .never => True
  | .overflow => True
  | _ => False

/-- The calls that only look and do not have to wait for anything. -/
def Call.Glances : Call → Prop
  | .store (.on _ op) => op.writes = false
  | .store (.keys _) => True
  | .store (.resolveReads _) => True
  | .store (.xread _) => True
  | .now => True
  | .offset => True
  | .hashedPasswords => True
  | .wantsNoPassword => True
  | .accepts _ => True
  | .never => True
  | .overflow => True
  | _ => False

/-- The calls that have no part in a watch, nor in what is recorded and passed on, those
that write to a key being made with proper arguments. -/
def Call.Apart : Call → Prop
  | .store (.on _ op) => op.Proper
  | .store (.versions _) => False
  | .store (.unchanged _) => False
  | .record _ => False
  | .send _ => False
  | .advance _ => False
  | .count => False
  | .caughtUpTo _ => False
  | _ => True

theorem Call.Looks.quiet (looks : call.Looks) : call.Quiet := by
  cases call with
  | store call => cases call <;> first | exact looks | exact True.intro
  | _ => first | exact True.intro | exact looks

theorem Call.Glances.looks (glances : call.Glances) : call.Looks := by
  cases call with
  | store call => cases call <;> first | exact glances | exact glances.elim
  | _ => first | exact True.intro | exact glances.elim

theorem KeyOp.proper_of_reads {op : KeyOp} (reads : op.writes = false) : op.Proper := by
  cases op <;> first | exact True.intro | cases reads

theorem Call.Looks.apart (looks : call.Looks) : call.Apart := by
  cases call with
  | store call =>
    cases call with
    | on key op => exact KeyOp.proper_of_reads looks
    | _ => first | exact True.intro | exact looks
  | _ => first | exact True.intro | exact looks

/-- The calls that change who listens and who is let in, or say something aloud. -/
def Call.Speaks : Call → Prop
  | .joined _ _ => True
  | .left _ _ => True
  | .publish _ _ => True
  | .addPassword _ => True
  | _ => False

theorem Call.Speaks.harmless (speaks : call.Speaks) : call.Harmless := by
  cases call <;> first | exact True.intro | exact speaks.elim

theorem Call.Speaks.apart (speaks : call.Speaks) : call.Apart := by
  cases call <;> first | exact True.intro | exact speaks.elim

/-- How a master asks its replicas how far they have got. -/
def howFar : List Bytes := [utf8 "REPLCONF", utf8 "GETACK", utf8 "*"]

/-- The calls `WAIT` makes. -/
def Call.Waits : Call → Prop
  | .offset => True
  | .count => True
  | .caughtUpTo _ => True
  | .send command => command = asCommand howFar
  | .advance _ => True
  | .now => True
  | .stirrings => True
  | .stirred _ _ => True
  | .never => True
  | .overflow => True
  | _ => False

theorem Call.Waits.quiet (waits : call.Waits) : call.Quiet := by
  cases call <;> first | exact True.intro | exact waits.elim

theorem Call.Quiet.harmless (quiet : call.Quiet) : call.Harmless := by
  cases call with
  | store call => cases call <;> exact quiet
  | receive _ _ => exact quiet
  | record _ => exact quiet
  | _ => exact True.intro

theorem Call.Harmless.onLog (harmless : call.Harmless) : call.OnLog = false := by
  cases call <;> first | rfl | exact harmless.elim

/-- A program that leaves all that others can see alone, unless it ends in something
that is no error. -/
def Tame {α : Type} (failed : α → Bool) (program : Prog α) : Prop :=
  program.Makes Call.Quiet ∨
    (program.Makes Call.Harmless ∧ program.Returns fun value => failed value = false)

theorem Tame.harmless {α : Type} {failed : α → Bool} {program : Prog α}
    (tame : Tame failed program) : program.Makes Call.Harmless := by
  rcases tame with quiet | ⟨harmless, -⟩
  · exact quiet.mono fun _ => Call.Quiet.harmless
  · exact harmless

theorem Tame.map {α β : Type} {failed : α → Bool} {program : Prog α}
    (tame : Tame failed program) {image : α → β} {failedToo : β → Bool}
    (unfailed : ∀ value, failed value = false → failedToo (image value) = false) :
    Tame failedToo (image <$> program) := by
  rcases tame with quiet | ⟨harmless, returns⟩
  · exact .inl (quiet.map _)
  · exact .inr ⟨harmless.map _, returns.bind unfailed⟩

/-- The program of a command that writes to one key: refused before the store is
asked anything, or one call, what it answers being an error only if nothing was
written. -/
inductive Writing : Prog Value → Prop where
  | refused {value : Value} (isError : value.isError) : Writing (.ret value)
  | asked (key : Bytes) (op : KeyOp) (reply : op.Reply → Value) (writes : op.writes)
      (proper : op.Proper)
      (unwritten : ∀ answer, (reply answer).isError → op.wrote answer = false) :
      Writing (ask (.on key op) reply)

@[simp] theorem makes_ask (allowed : Call → Prop) (call : StoreCall)
    (reply : call.Reply → Value) :
    (ask call reply).Makes allowed ↔ allowed (.store call) := by
  simp [ask]

theorem Keys.run_glances (found : Keys.run name args = some program) :
    program.Makes Call.Glances := by
  unfold Keys.run at found
  split at found <;> cases found
  all_goals split <;> simp [Call.Glances, KeyOp.writes]

theorem error_of_map {α β : Type} {image : α → β} {read : Except Value α}
    (refused : read.map image = .error error) : read = .error error := by
  cases read with
  | error other => exact congrArg Except.error (Except.error.inj refused)
  | ok value => cases refused

/-! ## Strings -/

section

variable [Platform]

theorem Strings.isError_of_parseExpiry {options : List Bytes}
    (refused : Strings.parseExpiry options = .error error) : error.isError := by
  unfold Strings.parseExpiry at refused
  split at refused
  · cases refused
  · split at refused
    · cases refused
      rfl
    · split at refused <;> cases refused
      rfl
  · cases refused
    rfl

theorem Strings.set_writing (key value : Bytes) (options : List Bytes) :
    Writing (Strings.set key value options) := by
  unfold Strings.set
  split
  · exact .asked _ _ _ rfl True.intro (by simp [ok, Value.isError])
  · exact .refused (Strings.isError_of_parseExpiry ‹_›)

/-- A command on strings is one that is recorded, or leaves the store alone. -/
theorem Strings.run_shape (found : Strings.run name args = some program) :
    (recordedAsSent name ∧ Writing program) ∨
      (recordedAsSent name = false ∧ name ≠ "BLPOP" ∧ program.Makes Call.Glances) := by
  unfold Strings.run at found
  split at found <;> cases found
  · exact .inr ⟨rfl, by decide, by simp⟩
  · refine .inr ⟨rfl, by decide, ?_⟩
    split <;> simp
  · refine .inl ⟨rfl, ?_⟩
    split
    · exact Strings.set_writing _ _ _
    · exact .refused rfl
  · refine .inr ⟨rfl, by decide, ?_⟩
    split <;> simp [Strings.get, Call.Glances, KeyOp.writes]
  · refine .inl ⟨rfl, ?_⟩
    split
    · refine .asked _ _ _ rfl True.intro fun answer failed => ?_
      rcases answer with (_ | _ | _) | value <;> first | rfl | cases failed
    · exact .refused rfl

end

/-! ## Lists -/

section

theorem Lists.push_writing (key element : Bytes) (elements : List Bytes) (side : Side) :
    Writing (Lists.push key (element :: elements) side) := by
  refine .asked _ _ _ rfl (List.cons_ne_nil _ _) fun answer failed => ?_
  rcases answer with _ | length
  · rfl
  · cases failed

theorem Lists.lpop_writing (key : Bytes) (count : Option Bytes) :
    Writing (Lists.lpop key count) := by
  unfold Lists.lpop
  split
  · refine .asked _ _ _ rfl True.intro fun answer failed => ?_
    rcases answer with _ | _ | ⟨element, taken⟩
    · rfl
    · rfl
    · cases failed
  · split
    · exact .refused rfl
    · split
      · exact .refused rfl
      · refine .asked _ _ _ rfl True.intro fun answer failed => ?_
        rcases answer with _ | taken
        · rfl
        · cases failed

theorem Lists.run_shape (found : Lists.run name args = some program) :
    (recordedAsSent name ∧ Writing program) ∨ name = "BLPOP" ∨
      (recordedAsSent name = false ∧ program.Makes Call.Glances) := by
  unfold Lists.run at found
  split at found <;> cases found
  · refine .inl ⟨rfl, ?_⟩
    split
    · exact Lists.push_writing _ _ _ _
    · exact .refused rfl
  · refine .inl ⟨rfl, ?_⟩
    split
    · exact Lists.push_writing _ _ _ _
    · exact .refused rfl
  · refine .inl ⟨rfl, ?_⟩
    split
    · exact Lists.lpop_writing _ _
    · exact Lists.lpop_writing _ _
    · exact .refused rfl
  · exact .inr (.inl rfl)
  · refine .inr (.inr ⟨rfl, ?_⟩)
    split <;> simp [Lists.llen, Call.Glances, KeyOp.writes]
  · refine .inr (.inr ⟨rfl, ?_⟩)
    split
    · unfold Lists.lrange
      split <;> simp [Call.Glances, KeyOp.writes]
    · simp

end

/-! ## Streams -/

section

theorem Streams.waitForEntries_looks (reads : List (Bytes × EntryId))
    (deadline : Option Instant) (rounds : Nat) :
    (Streams.waitForEntries reads deadline rounds).Makes Call.Looks := by
  induction rounds with
  | zero => simp [Streams.waitForEntries, Call.Looks]
  | succ rounds ih =>
    refine ⟨True.intro, fun answer => ?_⟩
    rcases answer with _ | _ | waker
    · simp
    · simp
    · refine ⟨True.intro, fun woken => ?_⟩
      cases woken
      · simp
      · exact ih

theorem Streams.readAfter_looks (server : Server) (wait : Streams.Wait)
    (rest : List Bytes) : (Streams.readAfter server wait rest).Makes Call.Looks := by
  unfold Streams.readAfter
  split
  · simp
  · refine ⟨True.intro, fun answer => ?_⟩
    rcases answer with _ | reads
    · simp
    · cases wait
      · simp [Call.Looks]
      · exact Streams.waitForEntries_looks _ _ _
      · exact Streams.waitForEntries_looks _ _ _

theorem Streams.xread_looks (server : Server) (args : List Bytes) :
    (Streams.xread server args).Makes Call.Looks := by
  unfold Streams.xread
  split
  · simp
  · exact Streams.readAfter_looks _ _ _
  · exact Streams.readAfter_looks _ _ _
  · rw [Program.makes_call]
    refine ⟨True.intro, fun now => ?_⟩
    -- the deadline is far too large a number to be looked into
    generalize instantAdd now _ = deadline
    cases deadline
    · simp [Call.Looks]
    · exact Streams.readAfter_looks _ _ _

theorem Streams.xadd_writing (key id : Bytes) (fields : List Bytes) :
    Writing (Streams.xadd key id fields) := by
  unfold Streams.xadd
  split
  · exact .refused rfl
  · refine .asked _ _ _ rfl True.intro fun answer failed => ?_
    rcases answer with _ | id
    · rfl
    · cases failed

theorem Streams.run_shape (found : Streams.run server name args = some program) :
    (recordedAsSent name ∧ Writing program) ∨
      (name = "XREAD" ∧ program = Streams.xread server args) ∨
      (recordedAsSent name = false ∧ name ≠ "BLPOP" ∧ program.Makes Call.Glances) := by
  unfold Streams.run at found
  split at found <;> cases found
  · refine .inl ⟨rfl, ?_⟩
    split
    · split
      · exact Streams.xadd_writing _ _ _
      · exact .refused rfl
    · exact .refused rfl
  · refine .inr (.inr ⟨rfl, by decide, ?_⟩)
    split
    · unfold Streams.xrange
      split <;> simp [Call.Glances, KeyOp.writes]
    · simp
  · exact .inr (.inl ⟨rfl, rfl⟩)

end

/-! ## Sorted sets and places -/

theorem SortedSets.score_isNumber {spelled : Bytes} {score : Float}
    (read : SortedSets.score spelled = .ok score) : (FloatOrder.rank score).isSome := by
  unfold SortedSets.score at read
  split at read
  · split at read
    · cases read
    · rename_i isNumber
      cases read
      rw [FloatOrder.rank_isSome]
      simpa using isNumber
  · cases read

theorem SortedSets.score_isError {spelled : Bytes}
    (refused : SortedSets.score spelled = .error error) : error.isError := by
  unfold SortedSets.score at refused
  split at refused
  · split at refused <;> cases refused
    rfl
  · cases refused
    rfl

theorem SortedSets.scored_isNumber {pairs : List Bytes}
    (read : SortedSets.scored pairs = .ok members) :
    ∀ member ∈ members, (FloatOrder.rank member.1).isSome := by
  fun_induction SortedSets.scored pairs generalizing members with
  | case1 spelled member rest error refused => cases read
  | case2 spelled member rest score isScore ih =>
    cases later : SortedSets.scored rest with
    | error error => simp [later, Except.map] at read
    | ok others =>
      simp only [later, Except.map, Except.ok.injEq] at read
      subst read
      simpa using ⟨SortedSets.score_isNumber isScore, fun score name isMember =>
        ih later (score, name) isMember⟩
  | case3 =>
    cases read
    simp

theorem SortedSets.scored_isError {pairs : List Bytes}
    (refused : SortedSets.scored pairs = .error error) : error.isError := by
  fun_induction SortedSets.scored pairs with
  | case1 spelled member rest other isRefused =>
    cases refused
    exact SortedSets.score_isError isRefused
  | case2 spelled member rest score isScore ih =>
    cases later : SortedSets.scored rest with
    | error other =>
      simp only [later, Except.map, Except.error.injEq] at refused
      subst refused
      exact ih later
    | ok others => simp [later, Except.map] at refused
  | case3 => cases refused

theorem SortedSets.scored_ne_nil {first second : Bytes} {rest : List Bytes}
    (read : SortedSets.scored (first :: second :: rest) = .ok members) : members ≠ [] := by
  simp only [SortedSets.scored] at read
  split at read
  · cases read
  · cases later : SortedSets.scored rest with
    | error other => simp [later, Except.map] at read
    | ok others =>
      simp only [later, Except.map, Except.ok.injEq] at read
      simp [← read]

theorem unwritten_of_added (answer : Except WrongType Nat)
    (failed : (SortedSets.added answer).isError) :
    KeyOp.wrote (.zadd members) answer = false := by
  rcases answer with _ | count
  · rfl
  · cases failed

theorem SortedSets.add_writing (key first : Bytes) (rest : List Bytes) :
    Writing (SortedSets.add key (first :: rest)) := by
  unfold SortedSets.add
  split
  · rename_i error refused
    unfold SortedSets.members at refused
    split at refused
    · exact .refused (SortedSets.scored_isError refused)
    · cases refused
      exact .refused rfl
  · rename_i members read
    unfold SortedSets.members at read
    split at read
    · rename_i even
      obtain ⟨second, rest, rfl⟩ : ∃ second others, rest = second :: others :=
        List.exists_cons_of_ne_nil (by rintro rfl; simp at even)
      exact .asked _ _ _ rfl
        ⟨SortedSets.scored_ne_nil read, SortedSets.scored_isNumber read⟩ unwritten_of_added
    · cases read

section

variable [Platform]

theorem SortedSets.run_shape (found : SortedSets.run name args = some program) :
    (recordedAsSent name ∧ Writing program) ∨
      (recordedAsSent name = false ∧ name ≠ "BLPOP" ∧ program.Makes Call.Glances) := by
  unfold SortedSets.run at found
  split at found <;> cases found
  · refine .inl ⟨rfl, ?_⟩
    split
    · exact SortedSets.add_writing _ _ _
    · exact .refused rfl
  · refine .inr ⟨rfl, by decide, ?_⟩
    split <;> simp [SortedSets.rank, Call.Glances, KeyOp.writes]
  · refine .inl ⟨rfl, ?_⟩
    split
    · refine .asked _ _ _ rfl True.intro fun answer failed => ?_
      rcases answer with _ | removed
      · rfl
      · cases failed
    · exact .refused rfl
  · refine .inr ⟨rfl, by decide, ?_⟩
    split <;> simp [SortedSets.scoreOf, Call.Glances, KeyOp.writes]
  · refine .inr ⟨rfl, by decide, ?_⟩
    split <;> simp [SortedSets.card, Call.Glances, KeyOp.writes]
  · refine .inr ⟨rfl, by decide, ?_⟩
    split
    · unfold SortedSets.range
      split <;> simp [Call.Glances, KeyOp.writes]
    · simp

theorem Geo.point_isError {longitude latitude : Bytes}
    (refused : Geo.point longitude latitude = .error error) : error.isError := by
  unfold Geo.point at refused
  split at refused
  · split at refused <;> cases refused
    rfl
  · cases refused
    rfl

theorem Geo.locations_isError {located : List Bytes}
    (refused : Geo.locations located = .error error) : error.isError := by
  fun_induction Geo.locations located with
  | case1 longitude latitude name rest other isRefused =>
    cases refused
    exact Geo.point_isError isRefused
  | case2 longitude latitude name rest point isPoint ih =>
    cases later : Geo.locations rest with
    | error other =>
      simp only [later, Except.map, Except.error.injEq] at refused
      subst refused
      exact ih later
    | ok others => simp [later, Except.map] at refused
  | case3 => cases refused

theorem Geo.locations_isNumber {located : List Bytes} (read : Geo.locations located = .ok members) :
    ∀ member ∈ members, (FloatOrder.rank member.1).isSome := by
  fun_induction Geo.locations located generalizing members with
  | case1 longitude latitude name rest other isRefused => cases read
  | case2 longitude latitude name rest point isPoint ih =>
    cases later : Geo.locations rest with
    | error error => simp [later, Except.map] at read
    | ok others =>
      simp only [later, Except.map, Except.ok.injEq] at read
      subst read
      simpa using ⟨FloatOrder.rank_toFloat _, fun score name isMember =>
        ih later (score, name) isMember⟩
  | case3 =>
    cases read
    simp

theorem Geo.add_writing (key longitude latitude place : Bytes) (rest : List Bytes) :
    Writing (Geo.add key (longitude :: latitude :: place :: rest)) := by
  unfold Geo.add
  split
  · split
    · exact .refused (Geo.locations_isError ‹_›)
    · rename_i members read
      refine .asked _ _ _ rfl ⟨?_, Geo.locations_isNumber read⟩ unwritten_of_added
      rintro rfl
      simp only [Geo.locations] at read
      split at read
      · cases read
      · cases later : Geo.locations rest <;> simp [later, Except.map] at read
  · exact .refused rfl

theorem Geo.positions_glances (key : Bytes) (found : List Value) (places : List Bytes) :
    (Geo.positions key found places).Makes Call.Glances := by
  induction places generalizing found with
  | nil => simp [Geo.positions]
  | cons place places ih =>
    refine ⟨rfl, fun answer => ?_⟩
    rcases answer with _ | _ | score
    · simp
    · exact ih _
    · dsimp only
      split
      · exact ih _
      · simp [Call.Glances]

theorem Geo.search_glances (key : Bytes) (terms : List Bytes) :
    (Geo.search key terms).Makes Call.Glances := by
  unfold Geo.search
  split
  · simp
  · refine ⟨rfl, fun answer => ?_⟩
    rcases answer with _ | places
    · simp
    · dsimp only
      split <;> simp [Call.Glances]

theorem Geo.distance_glances (key source target : Bytes) (unit : Option Bytes) :
    (Geo.distance key source target unit).Makes Call.Glances := by
  unfold Geo.distance
  split
  · simp
  · refine ⟨rfl, fun first => ⟨rfl, fun second => ?_⟩⟩
    dsimp only
    split
    · split <;> simp [Call.Glances]
    all_goals simp

theorem Geo.run_shape (found : Geo.run name args = some program) :
    (recordedAsSent name ∧ Writing program) ∨
      (recordedAsSent name = false ∧ name ≠ "BLPOP" ∧ program.Makes Call.Glances) := by
  unfold Geo.run at found
  split at found <;> cases found
  · refine .inl ⟨rfl, ?_⟩
    split
    · exact Geo.add_writing _ _ _ _ _
    · exact .refused rfl
  · refine .inr ⟨rfl, by decide, ?_⟩
    split
    · exact Geo.positions_glances _ _ _
    · simp
  · refine .inr ⟨rfl, by decide, ?_⟩
    split
    · exact Geo.distance_glances _ _ _ _
    · exact Geo.distance_glances _ _ _ _
    · simp
  · refine .inr ⟨rfl, by decide, ?_⟩
    split
    · exact Geo.search_glances _ _
    · simp

end

/-! ## The server itself -/

theorem Acl.userNamed_looks (user : Bytes) : (Acl.userNamed user).Makes Call.Looks := by
  unfold Acl.userNamed
  split <;> simp [Call.Looks]

theorem Info.report_waits (server : Server) (written : String) (sections : List String) :
    (Info.report server written sections).Makes Call.Waits := by
  induction sections generalizing written with
  | nil => simp [Info.report]
  | cons wanted sections ih =>
    simp only [Info.report]
    split
    · exact ⟨True.intro, fun offset => ih _⟩
    · exact ih _

theorem Replication.waitLoop_waits (target : Nat) (wanted : Int) (mayTimeOut : Bool)
    (rounds : Nat) :
    (Replication.waitLoop target wanted mayTimeOut rounds).Makes Call.Waits := by
  induction rounds with
  | zero => simp [Replication.waitLoop, Call.Waits]
  | succ rounds ih =>
    refine ⟨True.intro, fun since => ⟨True.intro, fun caughtUp => ?_⟩⟩
    dsimp only
    split
    · simp
    · refine ⟨True.intro, fun stirred => ?_⟩
      cases stirred
      · simp [Call.Waits]
      · exact ih

theorem Replication.wait_waits (server : Server) (wanted : Int) (timeout : Nat) :
    (Replication.wait server wanted timeout).Makes Call.Waits := by
  refine ⟨True.intro, fun target => ?_⟩
  dsimp only
  split
  · simp [Call.Waits]
  · refine ⟨rfl, fun asked => ⟨True.intro, fun _ => ?_⟩⟩
    dsimp only
    split
    · exact Replication.waitLoop_waits _ _ _ _
    · rw [Program.makes_call]
      refine ⟨True.intro, fun now => ?_⟩
      generalize instantAdd now _ = deadline
      cases deadline
      · simp [Call.Waits]
      · exact Replication.waitLoop_waits _ _ _ _

theorem Replication.run_waits (found : Replication.run server name args = some program) :
    program.Makes Call.Waits := by
  unfold Replication.run at found
  split at found <;> cases found
  · simp
  · split <;> simp [Call.Waits]
  · split
    · split
      · split
        · simp
        · exact (Replication.wait_waits _ _ _).map _
      · simp
    · simp

/-- The commands on the server itself ask how far along it is and who follows. -/
theorem runOnServer_waits (found : runOnServer server name args = some program) :
    program.Makes Call.Waits := by
  simp only [runOnServer, Option.orElse_eq_orElse, Option.orElse_eq_or,
    Option.or_eq_some_iff] at found
  rcases found with found | ⟨-, found | ⟨-, found⟩⟩
  · unfold Info.run at found
    split at found <;> cases found
    split <;> exact Info.report_waits _ _ _
  · unfold Settings.run at found
    split at found <;> cases found
    simp
  · exact Replication.run_waits found

theorem runOnServer_apart (notWait : name ≠ "WAIT")
    (found : runOnServer server name args = some program) : program.Makes Call.Apart := by
  simp only [runOnServer, Option.orElse_eq_orElse, Option.orElse_eq_or,
    Option.or_eq_some_iff] at found
  have reports (written : String) (sections : List String) :
      (Info.report server written sections).Makes Call.Apart := by
    induction sections generalizing written with
    | nil => simp [Info.report]
    | cons wanted sections ih =>
      simp only [Info.report]
      split
      · exact ⟨True.intro, fun offset => ih _⟩
      · exact ih _
  rcases found with found | ⟨-, found | ⟨-, found⟩⟩
  · unfold Info.run at found
    split at found <;> cases found
    split <;> exact reports _ _
  · unfold Settings.run at found
    split at found <;> cases found
    simp
  · unfold Replication.run at found
    split at found <;> cases found
    · simp
    · split <;> simp [Call.Apart]
    · exact absurd rfl notWait

theorem runOnServer_quiet (found : runOnServer server name args = some program) :
    program.Makes Call.Quiet :=
  (runOnServer_waits found).mono fun _ => Call.Waits.quiet

theorem Subscriptions.add_speaks (subscriptions : Subscriptions) (channel : Bytes) :
    (subscriptions.add channel).Makes Call.Speaks := by
  unfold Subscriptions.add Subscriptions.tell
  split
  · simp
  · split <;> simp [Call.Speaks]

theorem Subscriptions.remove_speaks (subscriptions : Subscriptions) (channel : Bytes) :
    (subscriptions.remove channel).Makes Call.Speaks := by
  unfold Subscriptions.remove Subscriptions.tell
  split
  · split <;> simp [Call.Speaks]
  · simp

theorem Pubsub.each_makes {allowed : Call → Prop} {what : String}
    {change : Subscriptions → Bytes → Prog (Nat × Subscriptions)}
    (makes : ∀ subscriptions channel, (change subscriptions channel).Makes allowed)
    (subscriptions : Subscriptions) (replies : List Value) (channels : List Bytes) :
    (Pubsub.each what change subscriptions replies channels).Makes allowed := by
  induction channels generalizing subscriptions replies with
  | nil => simp [Pubsub.each]
  | cons channel channels ih => exact (makes _ _).bind fun changed => ih _ _

theorem Pubsub.each_returns (what : String)
    (change : Subscriptions → Bytes → Prog (Nat × Subscriptions))
    (subscriptions : Subscriptions) (replies : List Value) (channels : List Bytes) :
    (Pubsub.each what change subscriptions replies channels).Returns
      fun replied => replied.1.isError = false := by
  induction channels generalizing subscriptions replies with
  | nil => rfl
  | cons channel channels ih =>
    exact (Program.Returns.of_forall (fun _ => True.intro) _).bind fun changed _ => ih _ _

theorem Pubsub.run_tame {subscriptions : Subscriptions} {program : Prog (Value × Subscriptions)}
    (found : Pubsub.run name args subscriptions = some program) :
    Tame (fun replied => replied.1.isError) program ∧ program.Makes Call.Apart := by
  have each {what : String} {change : Subscriptions → Bytes → Prog (Nat × Subscriptions)}
      (makes : ∀ subscriptions channel, (change subscriptions channel).Makes Call.Speaks)
      (channels : List Bytes) :
      Tame (fun replied => replied.1.isError)
          (Pubsub.each what change subscriptions [] channels) ∧
        (Pubsub.each what change subscriptions [] channels).Makes Call.Apart := by
    have speaks := @Pubsub.each_makes _ what change makes subscriptions [] channels
    exact ⟨.inr ⟨speaks.mono fun _ => Call.Speaks.harmless, Pubsub.each_returns _ _ _ _ _⟩,
      speaks.mono fun _ => Call.Speaks.apart⟩
  unfold Pubsub.run at found
  split at found
  · cases found
    split
    · exact ⟨.inr ⟨by simp [Call.Harmless], by simp [Value.isError]⟩, by simp [Call.Apart]⟩
    · exact ⟨.inl (by simp), by simp⟩
  · cases found
    split
    · exact ⟨.inl (by simp), by simp⟩
    · exact each Subscriptions.add_speaks _
  · cases found
    split
    · unfold Pubsub.givenUp
      split
      · exact ⟨.inl (by simp), by simp⟩
      · exact each Subscriptions.remove_speaks _
    · exact each Subscriptions.remove_speaks _
  · split at found <;> cases found
    exact ⟨.inl (by simp), by simp⟩
  · cases found

section

variable [Platform]

theorem Acl.setUser_tame (user : Bytes) (rules : List Bytes) :
    Tame Value.isError (Acl.setUser user rules) ∧
      (Acl.setUser user rules).Makes Call.Apart := by
  have addPasswords (passwords : List Bytes) :
      (Acl.addPasswords passwords).Makes Call.Speaks ∧
        (Acl.addPasswords passwords).Returns fun value => value.isError = false := by
    induction passwords with
    | nil => exact ⟨True.intro, rfl⟩
    | cons password passwords ih => exact ⟨⟨True.intro, fun _ => ih.1⟩, fun _ => ih.2⟩
  unfold Acl.setUser
  split
  · exact ⟨.inl (by simp), by simp⟩
  · split
    · exact ⟨.inl (by simp), by simp⟩
    · rename_i passwords _
      obtain ⟨speaks, unfailed⟩ := addPasswords passwords
      exact ⟨.inr ⟨speaks.mono fun _ => Call.Speaks.harmless, unfailed⟩,
        speaks.mono fun _ => Call.Speaks.apart⟩

theorem Acl.acl_tame (args : List Bytes) :
    Tame Value.isError (Acl.acl args) ∧ (Acl.acl args).Makes Call.Apart := by
  unfold Acl.acl
  split
  · exact ⟨.inl (by simp), by simp⟩
  · split
    · split <;> exact ⟨.inl (by simp), by simp⟩
    · split
      · split
        · have looks := Acl.userNamed_looks ‹_›
          exact ⟨.inl (looks.mono fun _ => Call.Looks.quiet),
            looks.mono fun _ => Call.Looks.apart⟩
        · exact ⟨.inl (by simp), by simp⟩
      · split
        · split
          · exact Acl.setUser_tame _ _
          · exact ⟨.inl (by simp), by simp⟩
        · exact ⟨.inl (by simp), by simp⟩

theorem Acl.authenticate_looks (user password : Bytes) (authenticated : Bool) :
    (Acl.authenticate user password authenticated).Makes Call.Looks := by
  unfold Acl.authenticate
  split <;> simp [Call.Looks]

theorem Acl.run_tame {authenticated : Bool} {program : Prog (Value × Bool)}
    (found : Acl.run name args authenticated = some program) :
    Tame (fun replied => replied.1.isError) program ∧ program.Makes Call.Apart := by
  unfold Acl.run at found
  split at found <;> cases found
  · obtain ⟨tame, apart⟩ := Acl.acl_tame args
    exact ⟨tame.map fun _ unfailed => unfailed, apart.map _⟩
  · have looks (program : Prog (Value × Bool)) (makes : program.Makes Call.Looks) :
        Tame (fun replied => replied.1.isError) program ∧ program.Makes Call.Apart :=
      ⟨.inl (makes.mono fun _ => Call.Looks.quiet), makes.mono fun _ => Call.Looks.apart⟩
    refine looks _ ?_
    split
    · refine ⟨True.intro, fun wantsNone => ?_⟩
      dsimp only
      split
      · simp
      · exact Acl.authenticate_looks _ _ _
    · exact Acl.authenticate_looks _ _ _
    · simp

end

/-! ## Every command -/

section

variable [Platform]

/-- The program `BLPOP` comes to. -/
def blpopProgram (args : List Bytes) : Prog Value :=
  match args with
  | [key, timeout] => Lists.blpop key timeout
  | _ => .ret (wrongArity "blpop")

omit [Platform] in
theorem mem_recordedAsSent (recorded : recordedAsSent name) :
    name = "SET" ∨ name = "INCR" ∨ name = "RPUSH" ∨ name = "LPUSH" ∨ name = "LPOP" ∨
      name = "XADD" ∨ name = "ZADD" ∨ name = "ZREM" ∨ name = "GEOADD" := by
  simpa [recordedAsSent] using recorded

/-- A command on the store is one that is recorded as it came in, or one of the two that
may wait, or only looks. -/
theorem runOnStore_cases (found : runOnStore server name args = some program) :
    (recordedAsSent name ∧ Writing program) ∨ name = "BLPOP" ∨
      (name = "XREAD" ∧ program = Streams.xread server args) ∨
      (recordedAsSent name = false ∧ program.Makes Call.Glances) := by
  simp only [runOnStore, Option.orElse_eq_orElse, Option.orElse_eq_or,
    Option.or_eq_some_iff] at found
  have other : ((recordedAsSent name ∧ Writing program) ∨
      (recordedAsSent name = false ∧ name ≠ "BLPOP" ∧ program.Makes Call.Glances)) →
      (recordedAsSent name ∧ Writing program) ∨ name = "BLPOP" ∨
        (name = "XREAD" ∧ program = Streams.xread server args) ∨
        (recordedAsSent name = false ∧ program.Makes Call.Glances) := by
    rintro (writing | ⟨unrecorded, -, glances⟩)
    · exact .inl writing
    · exact .inr (.inr (.inr ⟨unrecorded, glances⟩))
  rcases found with found | ⟨-, found | ⟨-, found | ⟨-, found | ⟨-, found | ⟨-, found⟩⟩⟩⟩⟩
  · exact other (Strings.run_shape found)
  · rcases Lists.run_shape found with writing | isBlpop | glances
    · exact .inl writing
    · exact .inr (.inl isBlpop)
    · exact .inr (.inr (.inr glances))
  · rcases Streams.run_shape found with writing | isXread | glances
    · exact .inl writing
    · exact .inr (.inr (.inl isXread))
    · exact other (.inr glances)
  · exact other (SortedSets.run_shape found)
  · exact other (Geo.run_shape found)
  · refine .inr (.inr (.inr ⟨?_, Keys.run_glances found⟩))
    unfold Keys.run at found
    split at found <;> first | rfl | cases found

/-- A command on the store is one that is recorded as it came in, or `BLPOP`, or
leaves what the store holds alone. -/
theorem runOnStore_shape (found : runOnStore server name args = some program) :
    (recordedAsSent name ∧ Writing program) ∨ name = "BLPOP" ∨
      (recordedAsSent name = false ∧ program.Makes Call.Looks) := by
  rcases runOnStore_cases found with writing | isBlpop | ⟨rfl, rfl⟩ | ⟨unrecorded, glances⟩
  · exact .inl writing
  · exact .inr (.inl isBlpop)
  · exact .inr (.inr ⟨rfl, Streams.xread_looks _ _⟩)
  · exact .inr (.inr ⟨unrecorded, glances.mono fun _ => Call.Glances.looks⟩)

/-- A command recorded as it came in is the same program on every server and for
every client, and leaves the client as it was. -/
theorem runAgainst_recorded (recorded : recordedAsSent command.uppercased) :
    ∃ program, Writing program ∧
      runOnStore {} command.uppercased command.args = some program ∧
      ∀ server client, runAgainst server client command = client.kept program := by
  obtain ⟨uppercased, name, args⟩ := command
  simp only at recorded
  obtain ⟨program, found⟩ : ∃ program, ∀ server,
      runOnStore server uppercased args = some program := by
    rcases mem_recordedAsSent recorded with
      rfl | rfl | rfl | rfl | rfl | rfl | rfl | rfl | rfl <;> exact ⟨_, fun server => rfl⟩
  refine ⟨program, ?_, found {}, fun server client => ?_⟩
  · rcases runOnStore_shape (found {}) with ⟨-, writing⟩ | rfl | ⟨unrecorded, -⟩
    · exact writing
    · cases recorded
    · rw [recorded] at unrecorded
      cases unrecorded
  · have unsteered : Transactions.run uppercased args client.transaction = none ∧
        Pubsub.run uppercased args client.subscriptions = none := by
      rcases mem_recordedAsSent recorded with
        rfl | rfl | rfl | rfl | rfl | rfl | rfl | rfl | rfl <;> exact ⟨rfl, rfl⟩
    simp only [runAgainst, unsteered, found]

theorem runAgainst_blpop (isBlpop : command.uppercased = "BLPOP") (server : Server)
    (client : Client) :
    runAgainst server client command = client.kept (blpopProgram command.args) := by
  obtain ⟨uppercased, name, args⟩ := command
  simp only at isBlpop
  subst isBlpop
  rfl

/-- Any other command leaves all that others can see alone, unless it goes through. -/
theorem runAgainst_tame (unrecorded : recordedAsSent command.uppercased = false)
    (notBlpop : command.uppercased ≠ "BLPOP") (server : Server) (client : Client) :
    Tame (fun replied => replied.1.isError) (runAgainst server client command) := by
  unfold runAgainst
  dsimp only
  split
  · exact .inl (by simp)
  · split
    · exact (Pubsub.run_tame ‹_›).1.map fun _ unfailed => unfailed
    · split
      · rename_i found
        rcases runOnStore_shape found with ⟨recorded, -⟩ | isBlpop | ⟨-, looks⟩
        · rw [unrecorded] at recorded
          cases recorded
        · exact absurd isBlpop notBlpop
        · exact .inl ((looks.mono fun _ => Call.Looks.quiet).map _)
      · split
        · exact (Acl.run_tame ‹_›).1.map fun _ unfailed => unfailed
        · split
          · exact .inl ((runOnServer_quiet ‹_›).map _)
          · exact .inl (by simp)

/-- Any other command leaves what the store holds and the log alone. -/
theorem runAgainst_harmless (unrecorded : recordedAsSent command.uppercased = false)
    (notBlpop : command.uppercased ≠ "BLPOP") (server : Server) (client : Client) :
    (runAgainst server client command).Makes Call.Harmless :=
  (runAgainst_tame unrecorded notBlpop server client).harmless

omit [Platform] in
theorem Writing.apart (writing : Writing program) :
    program.Makes Call.Apart := by
  cases writing with
  | refused isError => exact True.intro
  | asked key op reply writes proper unwritten => simpa [Call.Apart] using proper

omit [Platform] in
theorem blpopProgram_apart (args : List Bytes) : (blpopProgram args).Makes Call.Apart := by
  unfold blpopProgram
  split
  · unfold Lists.blpop
    split
    · exact True.intro
    · refine ⟨True.intro, fun answer => ?_⟩
      rcases answer with _ | _ | receiver <;> simp [Call.Apart]
  · exact True.intro

/-- No command but `WAIT` has a part in a watch or in what is passed on before it has
been run. -/
theorem runAgainst_apart (notWait : command.uppercased ≠ "WAIT") (server : Server)
    (client : Client) : (runAgainst server client command).Makes Call.Apart := by
  by_cases isBlpop : command.uppercased = "BLPOP"
  · rw [runAgainst_blpop isBlpop]
    exact (blpopProgram_apart _).map _
  unfold runAgainst
  dsimp only
  split
  · simp
  · split
    · exact (Pubsub.run_tame ‹_›).2.map _
    · split
      · rename_i found
        rcases runOnStore_shape found with ⟨-, writing⟩ | isBlpop' | ⟨-, looks⟩
        · exact writing.apart.map _
        · exact absurd isBlpop' isBlpop
        · exact (looks.mono fun _ => Call.Looks.apart).map _
      · split
        · exact (Acl.run_tame ‹_›).2.map _
        · split
          · exact (runOnServer_apart notWait ‹_›).map _
          · simp

omit [Platform] in
/-- What is left to do when there is nothing to write down. -/
theorem afterwards_unwritten {replied : Value × Client}
    (unwritten : writtenDown command replied.1 = none ∨ replied.1.isError) :
    afterwards server command replied = .ret replied := by
  unfold afterwards
  split
  · rfl
  · rename_i noError
    rcases unwritten with nothing | isError
    · rw [nothing]
    · exact absurd isError noError

omit [Platform] in
theorem passOn_returns (server : Server) (written : Value) (replied : Value × Client) :
    (passOn server written replied).Returns fun result => result = replied := by
  unfold passOn
  split
  · exact fun bytes advanced => rfl
  · rfl

omit [Platform] in
/-- What a command is answered stands once it has been run, unless it was to be recorded
and could not be. -/
theorem afterwards_returns (server : Server) (command : Command) (replied : Value × Client) :
    (afterwards server command replied).Returns fun result =>
      result = replied ∨
        result = (unrecorded, replied.2) ∧ (writtenDown command replied.1).isSome := by
  unfold afterwards
  split
  · exact .inl rfl
  · split
    · exact .inl rfl
    · rename_i written isWritten
      have passedOn := (passOn_returns server written replied).mono
        fun result same => (.inl same : result = replied ∨
          result = (unrecorded, replied.2) ∧ (writtenDown command replied.1).isSome)
      unfold noteDown
      split
      · intro recorded
        cases recorded
        · exact .inr ⟨rfl, by simp [isWritten]⟩
        · exact passedOn
      · exact passedOn

/-- The calls that steer a transaction. -/
def Call.Watches : Call → Prop
  | .store (.versions _) => True
  | .store (.unchanged _) => True
  | _ => False

omit [Platform] in
theorem Transactions.steer_watches {transaction : Transaction}
    {program : Prog (Transactions.Steered × Transaction)}
    (steered : Transactions.steer command transaction = some program) :
    program.Makes Call.Watches := by
  unfold Transactions.steer at steered
  split at steered
  · cases steered
    exact True.intro
  · cases steered
    split
    · exact ⟨True.intro, fun _ => True.intro⟩
    · exact True.intro
    · exact True.intro
  · cases steered
    split
    · exact True.intro
    · exact True.intro
    · exact ⟨True.intro, fun _ => True.intro⟩
  · cases steered
    exact True.intro
  · cases steered

omit [Platform] in
/-- Only an `EXEC` has its queue run. -/
theorem Transactions.steer_execute {command : Command} {transaction : Transaction}
    {steered : Prog (Steered × Transaction)}
    (found : Transactions.steer command transaction = some steered) :
    steered.Returns fun outcome => ∀ queued, outcome.1 = .execute queued →
      command.uppercased = "EXEC" := by
  unfold Transactions.steer at found
  split at found
  · cases found
    simp only [Program.returns_ret]
    split <;> simp
  · exact .of_forall (fun _ _ _ => ‹_›) steered
  · cases found
    split <;> simp
  · cases found
    simp only [Program.returns_ret]
    split <;> simp
  · cases found

omit [Platform] in
/-- The commands that steer a transaction only look at the store. -/
theorem Transactions.steer_quiet {transaction : Transaction}
    {program : Prog (Transactions.Steered × Transaction)}
    (steered : Transactions.steer command transaction = some program) :
    program.Makes Call.Quiet := by
  refine (Transactions.steer_watches steered).mono fun call watches => ?_
  unfold Call.Watches at watches
  split at watches
  · exact True.intro
  · exact True.intro
  · exact watches.elim

end

end RedisServer
