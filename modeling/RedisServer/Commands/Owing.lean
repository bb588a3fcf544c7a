import RedisServer.Commands.Effect
import RedisServer.Store.Doing

/-!
# What a recorded command answers

A command that is recorded as it came in answers with an error exactly if it asked the
store for nothing or what it asked for was refused.
-/

namespace RedisServer

/-- A program that refuses, or that asks for one method and answers with an error exactly if
the method was refused. -/
def Candid : Prog Value → Prop
  | .ret value => value.isError = true
  | .call (.store (.on _ op)) resume => ∀ answer : op.Reply, ∃ value,
      resume answer = .ret value ∧ value.isError = op.refused answer
  | _ => False

theorem candid_ask {key : Bytes} {op : KeyOp} {reply : op.Reply → Value}
    (exact : ∀ answer, (reply answer).isError = op.refused answer) :
    Candid (ask (.on key op) reply) := fun answer => ⟨_, rfl, exact answer⟩

variable [Platform]

omit [Platform] in
theorem Lists.push_candid (key : Bytes) (elements : List Bytes) (side : Side) :
    Candid (Lists.push key elements side) :=
  candid_ask fun answer => by cases answer <;> rfl

omit [Platform] in
theorem Lists.lpop_candid (key : Bytes) (count : Option Bytes) : Candid (Lists.lpop key count) := by
  unfold Lists.lpop
  split
  · exact candid_ask fun answer => by rcases answer with _ | _ | _ <;> rfl
  · split
    · rfl
    · split
      · rfl
      · exact candid_ask fun answer => by cases answer <;> rfl

theorem Strings.set_candid (key value : Bytes) (options : List Bytes) :
    Candid (Strings.set key value options) := by
  unfold Strings.set
  split
  · exact candid_ask fun _ => rfl
  · exact Strings.isError_of_parseExpiry ‹_›

omit [Platform] in
theorem Streams.xadd_candid (key id : Bytes) (fields : List Bytes) :
    Candid (Streams.xadd key id fields) := by
  unfold Streams.xadd
  split
  · rfl
  · exact candid_ask fun answer => by rcases answer with (_ | _ | _) | _ <;> rfl

omit [Platform] in
theorem SortedSets.members_isError {pairs : List Bytes} {error : Value}
    (refused : SortedSets.members pairs = .error error) : error.isError := by
  unfold SortedSets.members at refused
  split at refused
  · exact SortedSets.scored_isError refused
  · cases refused
    rfl

omit [Platform] in
theorem SortedSets.added_isError (answer : Except WrongType Nat) (members : List (Float × Bytes)) :
    (SortedSets.added answer).isError = (KeyOp.zadd members).refused answer := by
  cases answer <;> rfl

/-- A recorded command answers with an error exactly if it changes nothing for it. -/
theorem Command.candid {command : Command} (recorded : recordedAsSent command.uppercased)
    {server : Server} {program : Prog Value}
    (found : runOnStore server command.uppercased command.args = some program) :
    Candid program := by
  obtain ⟨uppercased, name, args⟩ := command
  simp only at recorded found
  rcases mem_recordedAsSent recorded with
    rfl | rfl | rfl | rfl | rfl | rfl | rfl | rfl | rfl
  all_goals cases found
  · -- `SET`
    split
    · exact Strings.set_candid _ _ _
    · rfl
  · -- `INCR`
    split
    · exact candid_ask fun answer => by rcases answer with (_ | _ | _) | _ <;> rfl
    · rfl
  · -- `RPUSH`
    split
    · exact Lists.push_candid _ _ _
    · rfl
  · -- `LPUSH`
    split
    · exact Lists.push_candid _ _ _
    · rfl
  · -- `LPOP`
    split
    · exact Lists.lpop_candid _ _
    · exact Lists.lpop_candid _ _
    · rfl
  · -- `XADD`
    split
    · split
      · exact Streams.xadd_candid _ _ _
      · rfl
    · rfl
  · -- `ZADD`
    split
    · unfold SortedSets.add
      split
      · exact SortedSets.members_isError ‹_›
      · exact candid_ask fun answer => SortedSets.added_isError answer _
    · rfl
  · -- `ZREM`
    split
    · exact candid_ask fun answer => by cases answer <;> rfl
    · rfl
  · -- `GEOADD`
    split
    · unfold Geo.add
      split
      · split
        · exact Geo.locations_isError ‹_›
        · exact candid_ask fun answer => SortedSets.added_isError answer _
      · rfl
    · rfl

end RedisServer
