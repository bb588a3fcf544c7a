import RedisServer.Concurrency.Registry

/-!
# What a client hears once it has stopped listening

A message waits for its connection in a queue that giving up a channel leaves alone, and
a connection takes up what its client says and what is said to it in whatever order it
comes to them.  As long as nothing is left in the queue when the last channel is given
up, a client on no channel hears answers to what it asks and nothing else.
-/

namespace RedisServer

/-! ## What passes on a connection -/

/-- Whether something was read from the client or written to it. -/
def Happening.passes : Happening → Bool
  | .asked _ | .answered _ | .heard _ => true
  | _ => false

/-- What the client was written, if it was written anything. -/
def Happening.written : Happening → Option Bytes
  | .answered (.reply value) | .answered (.replica value) => some value.encode
  | .heard message => some message
  | _ => none

def Happening.isAnswer : Happening → Bool
  | .answered _ => true
  | _ => false

def Happening.joins : Happening → Bool
  | .called _ (.joined _ _) _ => true
  | _ => false

/-- What a client asked, what it was answered and the messages it was written, in order. -/
def wire (id : Nat) (history : List Moment) : List Happening :=
  history.filterMap fun moment =>
    if moment.id = id ∧ moment.what.passes then some moment.what else none

/-- Each command is answered before the next is asked, and nothing else passes. -/
def TakeTurns : List Happening → Prop
  | [] => True
  | [.asked _] => True
  | .asked _ :: .answered _ :: rest => TakeTurns rest
  | _ => False

/-- From an answer written while a client is on no channel until it is put on one again,
what it is written are the answers to what it asks. -/
def HearsOnlyAnswers (id : Nat) (history : List Moment) : Prop :=
  ∀ before told middle after, history = before ++ told :: (middle ++ after) →
    told.id = id → told.what.isAnswer = true → own before id = [] →
    (∀ moment ∈ middle, moment.id = id → moment.what.joins = false) → TakeTurns (wire id middle)

theorem wire_append (id : Nat) (earlier later : List Moment) :
    wire id (earlier ++ later) = wire id earlier ++ wire id later :=
  List.filterMap_append

theorem mem_wire {id : Nat} {history : List Moment} {what : Happening} :
    what ∈ wire id history ↔
      ∃ moment ∈ history, moment.id = id ∧ moment.what = what ∧ what.passes = true := by
  simp only [wire, List.mem_filterMap, Option.ite_none_right_eq_some, Option.some.injEq]
  constructor
  · rintro ⟨moment, member, ⟨isHere, passes⟩, rfl⟩
    exact ⟨moment, member, isHere, rfl, passes⟩
  · rintro ⟨moment, member, isHere, rfl, passes⟩
    exact ⟨moment, member, ⟨isHere, passes⟩, rfl⟩

/-- Whether a command is in hand once this has passed, and `none` if it passed out of turn. -/
def inHand : Option Bool → Happening → Option Bool
  | some false, .asked _ => some true
  | some true, .answered _ => some false
  | some false, .heard _ => some false
  | _, _ => none

theorem foldl_inHand_none (passed : List Happening) : passed.foldl inHand none = none := by
  induction passed with
  | nil => rfl
  | cons what passed ih => exact ih

/-- Where no message is written, what passes in turn is commands and their answers. -/
theorem takeTurns_of_inHand {passed : List Happening}
    (silent : ∀ what ∈ passed, what.message = none)
    (alternates : passed.foldl inHand (some false) ≠ none) : TakeTurns passed := by
  fun_induction TakeTurns passed with
  | case1 => exact True.intro
  | case2 => exact True.intro
  | case3 value answer rest ih =>
    exact ih (fun what member => silent what (by simp [member])) alternates
  | case4 passed notNil notOne notTwo =>
    cases passed with
    | nil => exact absurd rfl notNil
    | cons first rest =>
      cases first with
      | asked value =>
        cases rest with
        | nil => exact absurd rfl (notOne value)
        | cons second rest =>
          cases second with
          | answered answer => exact absurd rfl (notTwo value answer rest)
          | _ => exact absurd (foldl_inHand_none rest) alternates
      | heard message => cases silent (.heard message) List.mem_cons_self
      | _ => exact absurd (foldl_inHand_none rest) alternates

/-- Whoever is on no channel stays off all of them until it is put on one. -/
theorem own_of_noJoin {id : Nat} {earlier later : List Moment} (nothing : own earlier id = [])
    (noJoin : ∀ moment ∈ later, moment.id = id → moment.what.joins = false) :
    own (earlier ++ later) id = [] := by
  induction later using List.reverseRecOn with
  | nil => rwa [List.append_nil]
  | append_singleton later moment ih =>
    rw [← List.append_assoc, own_concat, ih fun each member => noJoin each (by simp [member])]
    split
    · rename_i isHere
      have notJoin := noJoin moment (by simp) isHere
      unfold Happening.tunes
      split <;> first | rfl | simp_all [Happening.joins]
    · rfl

section

variable [Platform]

/-! ## Commands and answers in turn -/

/-- Whether a connection has a command in hand, while it serves its client. -/
def Stage.Alternates (busy : Bool) : Stage → Prop
  | .idle _ => busy = false
  | .running _ _ => busy = true
  | _ => True

theorem Stage.Alternates.moves {server : Server} {id : Nat} {world after : World}
    {stage moved : Stage} {move : Move} {what : Happening} {busy : Bool}
    (alternates : stage.Alternates busy)
    (moves : Stage.Moves server id world stage move moved after what) :
    ∃ next, (if what.passes then inHand (some busy) what else some busy) = some next ∧
      moved.Alternates next := by
  cases moves with
  | ask client value =>
    cases alternates
    exact ⟨true, rfl, rfl⟩
  | hear client waiting =>
    cases alternates
    exact ⟨false, rfl, rfl⟩
  | answer asked value client =>
    cases alternates
    exact ⟨false, rfl, rfl⟩
  | handOver asked value client =>
    cases alternates
    exact ⟨false, rfl, True.intro⟩
  | call performed => exact ⟨busy, rfl, alternates⟩
  | _ => exact ⟨busy, rfl, True.intro⟩

/-- All that has passed on each connection has passed in turn. -/
def Pool.Alternates (pool : Pool) : Prop :=
  ∀ id, ∃ busy, (wire id pool.history).foldl inHand (some false) = some busy ∧
    (∀ stage, pool.stages[id]? = some stage → stage.Alternates busy) ∧
    (pool.stages.length ≤ id → busy = false)

omit [Platform] in
theorem Pool.alternates_start (store : State) (log : Bytes) : (Pool.start store log).Alternates :=
  fun _ => ⟨false, rfl, by simp [Pool.start], fun _ => rfl⟩

theorem Pool.Alternates.step {server : Server} {pool next : Pool} {choice : Choice}
    (alternates : pool.Alternates) (stepped : pool.step server choice = some next) :
    next.Alternates := by
  obtain ⟨rfl, rfl⟩ | ⟨turn, move, stage, moved, world, what, rfl, isStage, moves, rfl⟩ :=
    Pool.step_cases stepped
  · intro id
    obtain ⟨busy, passed, agrees, unborn⟩ := alternates id
    refine ⟨busy, ?_, fun stage isStage => ?_, fun beyond => ?_⟩
    · rw [← passed, Pool.accept, wire_append]
      simp [wire, Happening.passes]
    · rw [Pool.accept_lookup] at isStage
      split at isStage
      · rename_i isNew
        cases isStage
        exact unborn isNew.ge
      · exact agrees stage isStage
    · exact unborn (by simp [Pool.accept] at beyond; omega)
  · intro id
    obtain ⟨busy, passed, agrees, unborn⟩ := alternates id
    by_cases isHere : turn = id
    · subst isHere
      obtain ⟨later, passes, agreesLater⟩ := (agrees stage isStage).moves moves
      refine ⟨later, ?_, fun now isNow => ?_, fun beyond => ?_⟩
      · rw [wire_append, List.foldl_append, passed]
        by_cases itPasses : what.passes = true
        · simpa [wire, itPasses] using passes
        · simpa [wire, itPasses] using passes
      · rw [lookup_set isStage, if_pos rfl] at isNow
        cases isNow
        exact agreesLater
      · have within : turn < pool.stages.length := (List.getElem?_eq_some_iff.mp isStage).1
        simp only [List.length_set] at beyond
        omega
    · refine ⟨busy, ?_, fun now isNow => ?_, fun beyond => unborn (by simpa using beyond)⟩
      · rw [wire_append, ← passed]
        simp [wire, isHere]
      · rw [lookup_set isStage, if_neg fun same => isHere same.symm] at isNow
        exact agrees now isNow

/-! ## Nothing left to hear -/

/-- The last channel of a connection is given up only while nothing is queued for it. -/
def Pool.heardOut (pool : Pool) : Choice → Bool
  | .turn id (.call _) =>
    match pool.stages[id]? with
    | some (.running _ (.call (.left channel _) _)) =>
      own pool.history id != [channel] || pool.world.mail[id]? == some []
    | _ => true
  | _ => true

/-- Nothing is queued for whoever is on no channel, and nothing was ever written to them. -/
structure Pool.Hushed (pool : Pool) : Prop where
  empty : ∀ (id : Nat) (stage : Stage), pool.stages[id]? = some stage → stage.isGone = false →
    own pool.history id = [] → pool.world.mail[id]? = some []
  spoken : ∀ before moment after, pool.history = before ++ moment :: after →
    own before moment.id = [] → moment.what.message = none

omit [Platform] in
theorem Pool.hushed_start (store : State) (log : Bytes) : (Pool.start store log).Hushed where
  empty id stage isStage := by simp [Pool.start] at isStage
  spoken before moment after isHistory := by simp [Pool.start] at isHistory

omit [Platform] in
/-- What was written earlier still is, and something more may be. -/
theorem spoken_concat {history : List Moment} {last : Moment}
    (spoken : ∀ before moment after, history = before ++ moment :: after →
      own before moment.id = [] → moment.what.message = none)
    (lately : own history last.id = [] → last.what.message = none)
    {before after : List Moment} {moment : Moment}
    (isHistory : history ++ [last] = before ++ moment :: after)
    (nothing : own before moment.id = []) : moment.what.message = none := by
  rcases concat_eq_append_cons isHistory with ⟨rfl, rfl, -⟩ | ⟨rest, isEarlier, -⟩
  · exact lately nothing
  · exact spoken before moment rest isEarlier nothing

/-- A connection whose last channel is given up has heard everything said on it. -/
theorem Pool.heardOut.left {server : Server} {pool : Pool} {id : Nat} {world : World}
    {stage moved : Stage} {move : Move} {env : Env} {channel : Bytes} {listener : Nat}
    (heardOut : pool.heardOut (.turn id move) = true) (isStage : pool.stages[id]? = some stage)
    (moves : Stage.Moves server id pool.world stage move moved world
      (.called env (.left channel listener) ()))
    (isLast : own pool.history id = [channel]) : pool.world.mail[id]? = some [] := by
  cases moves with
  | call performed => simpa [Pool.heardOut, isStage, isLast] using heardOut

namespace Pool.Hushed

variable {server : Server} {pool : Pool}

omit [Platform] in
theorem accept (hushed : pool.Hushed) : pool.accept.Hushed where
  empty id stage isStage stays nothing := by
    have sameOwn : own pool.accept.history id = own pool.history id :=
      congrArg Tuning.on (tuning_of_quiet rfl)
    have mail : pool.accept.world.mail[id]? =
        if id = pool.stages.length then some [] else pool.world.mail[id]? :=
      Map.lookup_insert _ _ _ _
    rw [Pool.accept_lookup] at isStage
    rw [mail]
    split at isStage
    · rw [if_pos ‹_›]
    · rw [if_neg ‹_›]
      exact hushed.empty id stage isStage stays (sameOwn ▸ nothing)
  spoken _ _ _ isHistory nothing := spoken_concat hushed.spoken (fun _ => rfl) isHistory nothing

variable {turn : Nat} {stage moved : Stage} {move : Move} {world : World} {what : Happening}

/-- What is queued for those on no channel is nothing after a turn as well. -/
theorem turn_empty (hushed : pool.Hushed) (registered : pool.Registered)
    (heardOut : pool.heardOut (.turn turn move) = true) (isStage : pool.stages[turn]? = some stage)
    (moves : Stage.Moves server turn pool.world stage move moved world what) {id : Nat}
    {now : Stage} (isNow : (pool.stages.set turn moved)[id]? = some now)
    (stays : now.isGone = false)
    (nothing : own (pool.history ++ [⟨turn, pool.world, what⟩]) id = []) :
    world.mail[id]? = some [] := by
  have fits := ((registered.stages turn stage isStage).moves moves).2
  rw [own_concat] at nothing
  rw [lookup_set isStage] at isNow
  -- whoever was on no channel before had nothing queued
  have before : own pool.history id = [] → pool.world.mail[id]? = some [] := by
    intro onNone
    split at isNow
    · rename_i isHere
      subst isHere
      exact hushed.empty id stage isStage moves.isHere onNone
    · exact hushed.empty id now isNow stays onNone
  have same (untuned : what.tunes (own pool.history id) = own pool.history id) :
      own pool.history id = [] := by
    rwa [untuned, ite_self] at nothing
  cases moves.aired with
  | aside quiet _ channels mail => rw [mail, before (same (tunes_of_quiet quiet _))]
  | joined env channel listener _ channels mail =>
    rw [mail]
    refine before ?_
    split at nothing
    · simp [Happening.tunes] at nothing
    · exact nothing
  | left env channel listener _ channels mail =>
    rw [mail]
    by_cases isHere : turn = id
    · subst isHere
      rw [if_pos rfl] at nothing
      have isLast : own pool.history turn = [channel] := by
        have length := List.length_erase_of_mem fits.2
        rw [show (own pool.history turn).erase channel = [] from nothing] at length
        obtain ⟨only, isOnly⟩ := List.length_eq_one_iff.mp
          (show (own pool.history turn).length = 1 by
            have := List.length_pos_of_mem fits.2
            simp at length
            omega)
        have isChannel := fits.2
        rw [isOnly, List.mem_singleton] at isChannel
        rw [isOnly, isChannel]
      exact Pool.heardOut.left heardOut isStage moves isLast
    · exact before (by rwa [if_neg isHere] at nothing)
  | published env channel delivery reached _ performed =>
    have onNone := same rfl
    rw [(registered.published performed).2.2 id, onNone, if_neg (by simp), before onNone]
  | heard message messages _ waiting channels mail =>
    have isEmpty := before (same rfl)
    have isElsewhere : id ≠ turn := by
      rintro rfl
      cases isEmpty.symm.trans waiting
    rw [mail, Map.lookup_insert, if_neg isElsewhere, isEmpty]
  | ended ends gone channels mail =>
    have isElsewhere : id ≠ turn := by
      rintro rfl
      rw [if_pos rfl] at isNow
      cases isNow
      rw [gone] at stays
      cases stays
    rw [if_neg isElsewhere.symm] at nothing
    rw [mail, Map.lookup_erase, if_neg isElsewhere, before nothing]

/-- Nothing is written to those on no channel. -/
theorem turn_silent (hushed : pool.Hushed) (isStage : pool.stages[turn]? = some stage)
    (moves : Stage.Moves server turn pool.world stage move moved world what)
    (nothing : own pool.history turn = []) : what.message = none := by
  have empty := hushed.empty turn stage isStage moves.isHere nothing
  cases moves with
  | hear client waiting => cases empty.symm.trans waiting
  | _ => rfl

theorem step (hushed : pool.Hushed) (registered : pool.Registered) {next : Pool} {choice : Choice}
    (heardOut : pool.heardOut choice = true) (stepped : pool.step server choice = some next) :
    next.Hushed := by
  obtain ⟨rfl, rfl⟩ | ⟨turn, move, stage, moved, world, what, rfl, isStage, moves, rfl⟩ :=
    Pool.step_cases stepped
  · exact hushed.accept
  · exact
      { empty := fun id now isNow stays nothing =>
          hushed.turn_empty registered heardOut isStage moves isNow stays nothing
        spoken := fun _ _ _ isHistory nothing =>
          spoken_concat hushed.spoken (hushed.turn_silent isStage moves) isHistory nothing }

end Pool.Hushed

omit [Platform] in
theorem hearsOnlyAnswers_of_hushed {pool : Pool} (hushed : pool.Hushed)
    (alternates : pool.Alternates) (id : Nat) : HearsOnlyAnswers id pool.history := by
  intro before told middle after isHistory isHere isAnswer nothing noJoin
  obtain ⟨busy, passed, -, -⟩ := alternates id
  have untold : own (before ++ [told]) id = [] := by
    refine own_of_noJoin nothing fun moment member _ => ?_
    cases List.mem_singleton.mp member
    cases isWhat : told.what <;> simp_all [Happening.isAnswer, Happening.joins]
  refine takeTurns_of_inHand (fun what member => ?_) ?_
  · obtain ⟨moment, isMoment, isOwn, rfl, -⟩ := mem_wire.mp member
    obtain ⟨earlier, later, rfl⟩ := List.append_of_mem isMoment
    refine hushed.spoken (before ++ [told] ++ earlier) moment (later ++ after)
      (by rw [isHistory]; simp) ?_
    rw [isOwn]
    exact own_of_noJoin untold fun each member => noJoin each (by simp [member])
  · intro outOfTurn
    have isTold : wire id [told] = [told.what] := by
      cases isWhat : told.what <;> simp_all [wire, Happening.isAnswer, Happening.passes]
    rw [isHistory, ← List.singleton_append, wire_append, wire_append, wire_append, isTold,
      List.foldl_append, List.foldl_append, List.foldl_append] at passed
    -- an answer in turn leaves no command in hand, one out of turn spoils what follows
    have answered (state : Option Bool) : [told.what].foldl inHand state = some false ∨
        [told.what].foldl inHand state = none := by
      cases isWhat : told.what with
      | answered answer => rcases state with _ | _ | _ <;> simp [inHand]
      | _ => simp [isWhat, Happening.isAnswer] at isAnswer
    rcases answered ((wire id before).foldl inHand (some false)) with isFalse | isNone
    · rw [isFalse, outOfTurn, foldl_inHand_none] at passed
      cases passed
    · rw [isNone, foldl_inHand_none, foldl_inHand_none] at passed
      cases passed

/-- If the last channel of a connection is only given up while nothing is queued for it, then a
client on no channel is written nothing but the answers to what it asks. -/
theorem unsubscribed_hears_only_answers (server : Server) (store : State) (log : Bytes)
    (choices : List Choice) (pool : Pool)
    (meets : Run.Meets (Pool.step server) (fun pool choice => pool.heardOut choice = true)
      (.start store log) choices)
    (ran : Run.after (Pool.step server) (.start store log) choices = some pool) (id : Nat) :
    HearsOnlyAnswers id pool.history := by
  have hushed : pool.Registered ∧ pool.Hushed := Run.invariant
    (fun pool => pool.Registered ∧ pool.Hushed)
    (fun _ _ _ ⟨registered, hushed⟩ heardOut stepped =>
      ⟨registered.step stepped, hushed.step registered heardOut stepped⟩)
    ⟨Pool.registered_start store log, Pool.hushed_start store log⟩ meets ran
  have alternates : pool.Alternates := Run.invariant_always (fun pool => pool.Alternates)
    (fun _ _ _ alternates => alternates.step) (Pool.alternates_start store log) ran
  exact hearsOnlyAnswers_of_hushed hushed.2 alternates id

end

/-- A client listens, hears what is published, stops listening and asks for something else. -/
def heardInTime : List Choice :=
  [.accept, .accept] ++ Choice.command 0 ["SUBSCRIBE", "a"] 1 ++
    Choice.command 1 ["PUBLISH", "a", "m"] 1 ++ [.turn 0 .hear] ++
    Choice.command 0 ["UNSUBSCRIBE", "a"] 1 ++ Choice.command 0 ["PING"] 0

theorem unsubscribed_hears_pong :
    ∃ pool, Run.after (@Pool.step .ascii {}) (.start {} []) heardInTime = some pool ∧
      HearsOnlyAnswers 0 pool.history := by
  obtain ⟨pool, ran⟩ := Option.isSome_iff_exists.mp
    (show (Run.after (@Pool.step .ascii {}) (.start {} []) heardInTime).isSome = true by
      decide +kernel)
  exact ⟨pool, ran,
    @unsubscribed_hears_only_answers .ascii {} {} [] heardInTime pool (by decide +kernel) ran 0⟩

/-- What was published while a client listened is still queued when it stops listening. -/
def heardTooLate : List Choice :=
  [.accept, .accept] ++ Choice.command 0 ["SUBSCRIBE", "a"] 1 ++
    Choice.command 1 ["PUBLISH", "a", "m"] 1 ++ Choice.command 0 ["UNSUBSCRIBE", "a"] 1 ++
    [.turn 0 .hear]

/-- A message is the last thing written to the first client, right after an answer that leaves
it on no channel. -/
def endsInMessage (history : List Moment) : Bool :=
  match history.reverse with
  | spoken :: told :: earlier =>
    told.id == 0 && told.what.isAnswer && own earlier.reverse 0 == [] &&
      spoken.id == 0 && spoken.what.message.isSome
  | _ => false

/-- The message is written after the confirmation that leaves the client on no channel. -/
theorem unsubscribed_hears_message :
    ∃ pool, Run.after (@Pool.step .ascii {}) (.start {} []) heardTooLate = some pool ∧
      (pool.history.filterMap fun moment =>
        if moment.id = 0 then moment.what.written else none) =
        [(Value.sequence [Pubsub.confirm "subscribe" (utf8 "a") 1]).encode,
          (Value.sequence [Pubsub.confirm "unsubscribe" (utf8 "a") 0]).encode,
          Pubsub.delivery (utf8 "a") (utf8 "m")] ∧
      ¬HearsOnlyAnswers 0 pool.history := by
  obtain ⟨pool, ran, seen⟩ := (Option.any_eq_true
    (fun pool : Pool =>
      (pool.history.filterMap fun moment =>
        if moment.id = 0 then moment.what.written else none) ==
        [(Value.sequence [Pubsub.confirm "subscribe" (utf8 "a") 1]).encode,
          (Value.sequence [Pubsub.confirm "unsubscribe" (utf8 "a") 0]).encode,
          Pubsub.delivery (utf8 "a") (utf8 "m")] && endsInMessage pool.history)
    (Run.after (@Pool.step .ascii {}) (.start {} []) heardTooLate)).mp (by decide +kernel)
  rw [Bool.and_eq_true, beq_iff_eq] at seen
  refine ⟨pool, ran, seen.1, fun hears => ?_⟩
  have late := seen.2
  unfold endsInMessage at late
  split at late
  · rename_i spoken told earlier isHistory
    simp only [Bool.and_eq_true, beq_iff_eq] at late
    obtain ⟨⟨⟨⟨isTold, isAnswer⟩, nothing⟩, isHere⟩, isMessage⟩ := late
    have split : pool.history = earlier.reverse ++ told :: ([spoken] ++ []) := by
      rw [← List.reverse_reverse pool.history, isHistory]
      simp
    have spoke : ∃ message, spoken.what = .heard message := by
      cases isWhat : spoken.what <;> simp_all [Happening.message]
    obtain ⟨message, isWhat⟩ := spoke
    have turns := hears earlier.reverse told [spoken] [] split isTold isAnswer nothing (by
      simp [isWhat, Happening.joins])
    simp [wire, isHere, isWhat, Happening.passes, TakeTurns] at turns
  · cases late

end RedisServer
