import RedisServer.Commands.Shape
import RedisServer.Store.Settled

/-!
# What a command does to the keyspace

A command that is recorded as it came in asks for one method on one key.  `target`
reads the two off the program the command comes to, and `carry` is what the command
does to a keyspace.  A plain command is one that means the same at any time.
-/

namespace RedisServer

/-- The method a program starts by asking for, and the key it is asked of. -/
def askedOf : Prog Value → Option (Bytes × KeyOp)
  | .call (.store (.on key op)) _ => some (key, op)
  | _ => none

namespace Command

variable [Platform]

/-- The method a command asks for, and the key it is asked of. -/
def target (command : Command) : Option (Bytes × KeyOp) :=
  (runOnStore {} command.uppercased command.args).bind askedOf

/-- The keyspace once a command has been carried out. -/
def carry (clock : Clock) (command : Command) (space : Keyspace) : Keyspace :=
  match command.target with
  | some (key, op) => space.carry clock key op
  | none => space

/-- A `SET` that gives its key a time to live. -/
def CarriesExpiry (command : Command) : Prop :=
  command.uppercased = "SET" ∧ ∃ key value options delay,
    command.args = key :: value :: options ∧
      Strings.parseExpiry options = .ok (some delay)

omit [Platform] in
/-- An `XADD` that leaves its id to the server. -/
def AsksForId (command : Command) : Prop :=
  command.uppercased = "XADD" ∧ ∃ key fields, command.args = key :: utf8 "*" :: fields

/-- A command that means the same whenever it is carried out. -/
structure Plain (command : Command) : Prop where
  undated : ¬ command.CarriesExpiry
  named : ¬ command.AsksForId

/-- Any command but `XADD` and a `SET` with options means the same at any time. -/
theorem plain_of_few {command : Command}
    (few : command.uppercased = "SET" → command.args.length ≤ 2)
    (notXadd : command.uppercased ≠ "XADD") : command.Plain where
  undated := by
    rintro ⟨isSet, key, value, options, delay, args, expiry⟩
    have noOptions : options = [] := by simpa [args] using few isSet
    cases noOptions
    cases expiry
  named asks := notXadd asks.1

theorem Plain.timeless_set {name : Bytes} {args : List Bytes}
    (plain : Plain ⟨"SET", name, args⟩) {key : Bytes} {op : KeyOp}
    (asked : target ⟨"SET", name, args⟩ = some (key, op)) : op.Timeless := by
  rcases args with _ | ⟨target, _ | ⟨value, options⟩⟩
  · cases asked
  · cases asked
  · change askedOf (Strings.set target value options) = some (key, op) at asked
    unfold Strings.set at asked
    split at asked
    · rename_i expiresIn read
      cases asked
      cases expiresIn with
      | none => rfl
      | some delay => exact absurd ⟨rfl, _, value, options, delay, rfl, read⟩ plain.undated
    · cases asked

theorem Plain.timeless_xadd {name : Bytes} {args : List Bytes}
    (plain : Plain ⟨"XADD", name, args⟩) {key : Bytes} {op : KeyOp}
    (asked : target ⟨"XADD", name, args⟩ = some (key, op)) : op.Timeless := by
  rcases args with _ | ⟨target, _ | ⟨id, _ | ⟨field, fields⟩⟩⟩
  · cases asked
  · cases asked
  · cases asked
  · change askedOf (if (field :: fields).length % 2 = 0 then
      Streams.xadd target id (field :: fields) else .ret (wrongArity "xadd")) =
        some (key, op) at asked
    split at asked
    · unfold Streams.xadd at asked
      split at asked
      · cases asked
      · rename_i requested read
        cases asked
        rintro rfl
        obtain ⟨content, isText, isId⟩ := Option.bind_eq_some_iff.mp read
        refine plain.named ⟨rfl, key, field :: fields, ?_⟩
        have star : content = "*" := by
          unfold RequestedId.fromStr at isId
          split at isId
          · assumption
          · split at isId
            · cases isId
            · split at isId
              · cases isId
              · split at isId
                · cases isId
                · obtain ⟨_, _, ⟨⟩⟩ := Option.map_eq_some_iff.mp isId
        rw [text_eq_some isText, star]
    · cases asked

/-- Only a `SET` with an expiry and an `XADD` without an id look at a clock. -/
theorem Plain.timeless {command : Command} (plain : command.Plain)
    (recorded : recordedAsSent command.uppercased) {key : Bytes} {op : KeyOp}
    (asked : command.target = some (key, op)) : op.Timeless := by
  obtain ⟨uppercased, name, args⟩ := command
  simp only at recorded
  rcases mem_recordedAsSent recorded with
    rfl | rfl | rfl | rfl | rfl | rfl | rfl | rfl | rfl
  · exact plain.timeless_set asked
  · -- `INCR`
    rcases args with _ | ⟨_, _ | ⟨_, _⟩⟩ <;> cases asked
    trivial
  · -- `RPUSH`
    rcases args with _ | ⟨_, _ | ⟨_, _⟩⟩ <;> cases asked
    trivial
  · -- `LPUSH`
    rcases args with _ | ⟨_, _ | ⟨_, _⟩⟩ <;> cases asked
    trivial
  · -- `LPOP`
    rcases args with _ | ⟨list, _ | ⟨count, _ | ⟨_, _⟩⟩⟩
    · cases asked
    · cases asked
      trivial
    · change askedOf (Lists.lpop list (some count)) = some (key, op) at asked
      simp only [Lists.lpop] at asked
      split at asked
      · cases asked
      · split at asked <;> cases asked
        trivial
    · cases asked
  · exact plain.timeless_xadd asked
  · -- `ZADD`
    rcases args with _ | ⟨set, _ | ⟨first, rest⟩⟩
    · cases asked
    · cases asked
    · change askedOf (SortedSets.add set (first :: rest)) = some (key, op) at asked
      unfold SortedSets.add at asked
      split at asked <;> cases asked
      trivial
  · -- `ZREM`
    rcases args with _ | ⟨_, _ | ⟨_, _⟩⟩ <;> cases asked
    trivial
  · -- `GEOADD`
    rcases args with _ | ⟨set, _ | ⟨longitude, _ | ⟨latitude, _ | ⟨place, rest⟩⟩⟩⟩
    · cases asked
    · cases asked
    · cases asked
    · cases asked
    · change askedOf (Geo.add set (longitude :: latitude :: place :: rest)) =
        some (key, op) at asked
      unfold Geo.add at asked
      split at asked
      · split at asked <;> cases asked
        trivial
      · cases asked

end Command

/-- A call that is harmless leaves what the store holds alone. -/
theorem State.Settled.harmless {state after : State} {clock : Clock} {call : StoreCall}
    {reply : call.Reply} (settled : state.Settled) (harmless : Call.Harmless (.store call))
    (performed : state.perform clock call = some (after, reply)) :
    after.Settled ∧ after.contents = state.contents := by
  cases call with
  | on key op =>
    have looksOnly : op.writes = false := harmless
    have timeless : op.Timeless := by
      cases op <;> trivial
    have proper : op.Proper := by
      cases op <;> trivial
    obtain ⟨afterSettled, cell, acted, changed⟩ :=
      settled.performOn timeless proper performed
    refine ⟨afterSettled, ?_⟩
    rw [changed, KeyOp.act_of_looks looksOnly acted, Function.update_eq_self]
  | blpop key => exact harmless.elim
  | _ => exact State.Looks.settled settled (State.perform_looks performed True.intro)

end RedisServer
