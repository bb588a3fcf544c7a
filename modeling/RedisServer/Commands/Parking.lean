import RedisServer.Commands.Speaking

/-!
# Commands that wait

`BLPOP` waits when it is told to by the store, and so does `XREAD`; they wait for just
what they were handed to wait on, right away, and no other command waits for either.
That is a protocol whose phase is what a command has been told to wait on.
-/

namespace RedisServer

/-- What a command may have been told to wait on: an element, or a stream that grows past
what it reads from. -/
inductive Parked where
  | onList (receiver : Nat)
  | onStreams (waker : Nat) (reads : List (Bytes × EntryId))

/-- What is handed to be waited on is waited on next, and nothing else is. -/
def parking : Protocol calls (Option Parked) where
  allows
    | some (.onList receiver), call => ∃ mayTimeOut, call = .receive receiver mayTimeOut
    | some (.onStreams waker _), call => ∃ deadline, call = .notified waker deadline
    | none, .receive _ _ => False
    | none, .notified _ _ => False
    | none, _ => True
  next _ call reply :=
    match call, reply with
    | .store (.blpop _), .ok (.waiting receiver) => some (.onList receiver)
    | .store (.xreadOrWatch reads), .ok (.waiting waker) => some (.onStreams waker reads)
    | _, _ => none

/-- The calls that neither wait nor tell a command to. -/
def Call.Brisk : Call → Prop
  | .store (.blpop _) => False
  | .store (.xreadOrWatch _) => False
  | .receive _ _ => False
  | .notified _ _ => False
  | _ => True

theorem Call.Glances.brisk {call : Call} (glances : call.Glances) : call.Brisk := by
  cases call with
  | store call => cases call <;> first | exact True.intro | exact glances.elim
  | _ => first | exact True.intro | exact glances.elim

theorem Call.Airs.brisk {call : Call} (airs : call.Airs) : call.Brisk := by
  cases call <;> first | exact True.intro | exact airs.elim

theorem Call.LetsIn.brisk {call : Call} (letsIn : call.LetsIn) : call.Brisk := by
  cases call <;> first | exact True.intro | exact letsIn.elim

theorem Call.Waits.brisk {call : Call} (waits : call.Waits) : call.Brisk := by
  cases call <;> first | exact True.intro | exact waits.elim

theorem Writing.brisk {program : Prog Value} (writing : Writing program) :
    program.Makes Call.Brisk := by
  cases writing with
  | refused isError => exact True.intro
  | asked key op reply writes proper unwritten => exact ⟨True.intro, fun _ => True.intro⟩

theorem parking_brisk {call : Call} (brisk : call.Brisk) :
    parking.Rests (fun phase => phase = none) call := by
  rintro phase rfl
  cases call with
  | store call => cases call <;> first | exact brisk.elim | exact ⟨True.intro, fun _ => rfl⟩
  | _ => first | exact brisk.elim | exact ⟨True.intro, fun _ => rfl⟩

theorem blpopProgram_parking (args : List Bytes) :
    (blpopProgram args).Keeps parking (fun phase _ => phase = none) none := by
  unfold blpopProgram
  split
  · unfold Lists.blpop
    split
    · rfl
    · refine ⟨True.intro, fun answer => ?_⟩
      rcases answer with _ | _ | receiver
      · rfl
      · rfl
      · exact ⟨⟨_, rfl⟩, fun _ => rfl⟩
  · rfl

theorem waitForEntries_parking (reads : List (Bytes × EntryId)) (deadline : Option Instant)
    (rounds : Nat) :
    (Streams.waitForEntries reads deadline rounds).Keeps parking (fun phase _ => phase = none)
      none := by
  induction rounds with
  | zero => exact ⟨True.intro, nofun⟩
  | succ rounds ih =>
    refine ⟨True.intro, fun answer => ?_⟩
    rcases answer with _ | _ | waker
    · rfl
    · rfl
    · refine ⟨⟨_, rfl⟩, fun woken => ?_⟩
      cases woken
      · rfl
      · exact ih

theorem readAfter_parking (server : Server) (wait : Streams.Wait) (rest : List Bytes) :
    (Streams.readAfter server wait rest).Keeps parking (fun phase _ => phase = none) none := by
  unfold Streams.readAfter
  split
  · rfl
  · refine ⟨True.intro, fun answer => ?_⟩
    rcases answer with _ | reads
    · rfl
    · cases wait
      · exact ⟨True.intro, fun _ => rfl⟩
      · exact waitForEntries_parking _ _ _
      · exact waitForEntries_parking _ _ _

theorem xread_parking (server : Server) (args : List Bytes) :
    (Streams.xread server args).Keeps parking (fun phase _ => phase = none) none := by
  unfold Streams.xread
  split
  · rfl
  · exact readAfter_parking _ _ _
  · exact readAfter_parking _ _ _
  · rw [Program.keeps_call]
    refine ⟨True.intro, fun now => ?_⟩
    generalize instantAdd now _ = deadline
    cases deadline
    · exact ⟨True.intro, nofun⟩
    · exact readAfter_parking _ _ _

theorem parking_carries : Carries parking fun phase => phase = none where
  record words := parking_brisk True.intro
  passes words phase resting := by
    subst resting
    exact ⟨True.intro, fun _ => ⟨True.intro, rfl⟩⟩

section

variable [Platform]

theorem runOnStore_parking {server : Server} {name : String} {args : List Bytes}
    {program : Prog Value} (found : runOnStore server name args = some program) :
    program.Keeps parking (fun phase _ => phase = none) none := by
  rcases runOnStore_cases found with ⟨-, writing⟩ | rfl | ⟨rfl, rfl⟩ | ⟨-, glances⟩
  · exact .of_makes (fun _ => parking_brisk) writing.brisk rfl
  · obtain rfl : blpopProgram args = program := Option.some.inj found
    exact blpopProgram_parking args
  · exact xread_parking server args
  · exact .of_makes (fun _ glances => parking_brisk glances.brisk) glances rfl

theorem runAgainst_parking (server : Server) (client : Client) (command : Command)
    (phase : Option Parked) (resting : phase = none) :
    (runAgainst server client command).Keeps parking (fun phase _ => phase = none) phase := by
  subst resting
  unfold runAgainst
  dsimp only
  split
  · rfl
  split
  · refine Program.Keeps.map ?_
    exact .of_makes (fun _ airs => parking_brisk airs.brisk) (Pubsub.run_airs ‹_›) rfl
  split
  · refine Program.Keeps.map ?_
    exact runOnStore_parking ‹_›
  split
  · refine Program.Keeps.map ?_
    exact .of_makes (fun _ letsIn => parking_brisk letsIn.brisk) (Acl.run_letsIn ‹_›) rfl
  split
  · refine Program.Keeps.map ?_
    exact .of_makes (fun _ waits => parking_brisk waits.brisk) (runOnServer_waits ‹_›) rfl
  · rfl

/-- Every command waits for what it is told to wait on and for nothing else. -/
theorem run_parking (server : Server) (client : Client) (asked : Value) :
    (run server client asked).Keeps parking (fun phase _ => phase = none) none := by
  refine parking_carries.run (runAgainst_parking server) (fun call watches => parking_brisk ?_)
    rfl client asked
  cases call with
  | store call => cases call <;> first | exact True.intro | exact watches.elim
  | _ => exact watches.elim

end

end RedisServer
