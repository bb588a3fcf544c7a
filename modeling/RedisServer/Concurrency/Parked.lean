import RedisServer.Commands.Parking
import RedisServer.Concurrency.Pool

/-!
# What each connection waits on

What a connection has been told to wait on is the last thing that happened on it, and a
connection that has been told to wait does so on its next turn.
-/

namespace RedisServer

/-- What a connection has been told to wait on. -/
def Happening.parks : Happening → Option Parked
  | .called _ call reply => parking.next none call reply
  | _ => none

/-- What a connection waits on after all that has happened. -/
def parkedOn (id : Nat) (history : List Moment) : Option Parked :=
  history.foldl (fun parked moment => if moment.id = id then moment.what.parks else parked) none

theorem parkedOn_concat (id : Nat) (history : List Moment) (moment : Moment) :
    parkedOn id (history ++ [moment]) =
      if moment.id = id then moment.what.parks else parkedOn id history := by
  simp [parkedOn]

/-- A connection in the middle of a command waits for what it was told to. -/
def Stage.Parks (parked : Option Parked) : Stage → Prop
  | .running _ program => program.Keeps parking (fun phase _ => phase = none) parked
  | _ => parked = none

variable [Platform]

theorem Stage.Parks.moves {server : Server} {id : Nat} {world after : World}
    {stage moved : Stage} {move : Move} {what : Happening} {parked : Option Parked}
    (parks : stage.Parks parked)
    (moves : Stage.Moves server id world stage move moved after what) :
    moved.Parks what.parks := by
  cases moves with
  | ask client value => exact run_parking server client value
  | call performed => exact parks.2 _
  | _ => rfl

/-- Every connection waits for what it was told to. -/
structure Pool.Parks (pool : Pool) : Prop where
  stages : ∀ (id : Nat) (stage : Stage), pool.stages[id]? = some stage →
    stage.Parks (parkedOn id pool.history)
  unborn : ∀ id, pool.stages.length ≤ id → parkedOn id pool.history = none

omit [Platform] in
theorem Pool.parks_start (store : State) (log : Bytes) : (Pool.start store log).Parks where
  stages id stage isStage := by simp [Pool.start] at isStage
  unborn _ _ := rfl

theorem Pool.Parks.step {server : Server} {pool next : Pool} {choice : Choice}
    (parks : pool.Parks) (stepped : pool.step server choice = some next) : next.Parks := by
  obtain ⟨rfl, rfl⟩ | ⟨turn, move, stage, moved, world, what, rfl, isStage, moves, rfl⟩ :=
    Pool.step_cases stepped
  · have same (id : Nat) : parkedOn id pool.accept.history = parkedOn id pool.history := by
      rw [Pool.accept, parkedOn_concat]
      split
      · rename_i isNew
        exact (parks.unborn id isNew.le).symm
      · rfl
    refine ⟨fun id stage isStage => ?_, fun id beyond => ?_⟩
    · rw [same]
      rw [Pool.accept_lookup] at isStage
      split at isStage
      · rename_i isNew
        cases isStage
        exact parks.unborn id isNew.ge
      · exact parks.stages id stage isStage
    · rw [same]
      exact parks.unborn id (by simp [Pool.accept] at beyond; omega)
  · have within : turn < pool.stages.length := (List.getElem?_eq_some_iff.mp isStage).1
    refine ⟨fun id now isNow => ?_, fun id beyond => ?_⟩
    · rw [lookup_set isStage] at isNow
      rw [parkedOn_concat]
      split at isNow
      · rename_i isHere
        cases isNow
        rw [if_pos isHere.symm]
        exact (parks.stages turn stage isStage).moves moves
      · rename_i elsewhere
        rw [if_neg fun same => elsewhere same.symm]
        exact parks.stages id now isNow
    · simp only [List.length_set] at beyond
      have elsewhere : turn ≠ id := Nat.ne_of_lt (within.trans_le beyond)
      rw [parkedOn_concat, if_neg elsewhere]
      exact parks.unborn id beyond

end RedisServer
