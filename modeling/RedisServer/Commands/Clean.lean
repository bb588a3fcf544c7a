import RedisServer.Commands.Shape
import RedisServer.Grammar

/-!
# Replies laid out as one value

Replies are gathered in a dozen modules.  Those that hold no text of the client's in
the line of an error are clean, whatever the store answers: the confirmations of
`SUBSCRIBE` and `UNSUBSCRIBE` and the dataset `PSYNC` hands over are the only ones
that are not one value.
-/

namespace RedisServer

variable {error : Value} {args : List Bytes} {name : String} {server : Server}
  {program : Prog Value}

/-! ## Replies the modules share -/

@[simp] theorem clean_bulk (content : String) : (bulk content).Clean := True.intro

@[simp] theorem clean_ok : ok.Clean := oneLine_of_no_return (by simp)

@[simp] theorem clean_wrongType : wrongType.Clean := clean_error (by simp)

@[simp] theorem clean_notAnInteger : notAnInteger.Clean := clean_error (by simp)

@[simp] theorem clean_syntaxError : syntaxError.Clean := clean_error (by simp)

@[simp] theorem clean_notAFloat : notAFloat.Clean := clean_error (by simp)

@[simp] theorem clean_unrecorded : unrecorded.Clean := clean_error (by simp)

@[simp] theorem clean_wrongArity {command : String} (noReturn : '\r' ∉ command.toList) :
    (wrongArity command).Clean :=
  clean_error (by simp [noReturn])

@[simp] theorem clean_bulkStrings (contents : List Bytes) :
    (Value.array (contents.map Value.bulkString)).Clean := by
  simp

/-! ## The commands on what the store holds -/

@[simp] theorem returns_ask (post : Value → Prop) (call : StoreCall)
    (reply : call.Reply → Value) :
    (ask call reply).Returns post ↔ ∀ answer, post (reply answer) := Iff.rfl

theorem Keys.run_clean (found : Keys.run name args = some program) :
    program.Returns Value.Clean := by
  unfold Keys.run at found
  split at found <;> cases found
  · split
    · intro kind
      cases kind <;> exact oneLine_of_no_return (by simp [Keys.typeName])
    · simp
  · split <;> simp

section

variable [Platform]

theorem Strings.parseExpiry_clean {options : List Bytes}
    (refused : Strings.parseExpiry options = .error error) : error.Clean := by
  unfold Strings.parseExpiry at refused
  split at refused
  · cases refused
  · split at refused
    · cases refused
      simp
    · split at refused <;> cases refused
      simp
  · cases refused
    simp

theorem Strings.run_clean (found : Strings.run name args = some program) :
    program.Returns Value.Clean := by
  unfold Strings.run at found
  split at found <;> cases found
  · exact oneLine_of_no_return (by simp)
  · split <;> simp
  · split
    · unfold Strings.set
      split
      · simp
      · exact Strings.parseExpiry_clean ‹_›
    · simp
  · split
    · intro answer
      rcases answer with _ | _ | value <;> simp
    · simp
  · split
    · intro answer
      rcases answer with (_ | _ | _) | value
      · simp
      · exact clean_error (by simp)
      · simp
      · simp
    · simp

end

section

theorem Lists.lpop_clean (key : Bytes) (count : Option Bytes) :
    (Lists.lpop key count).Returns Value.Clean := by
  unfold Lists.lpop
  split
  · intro answer
    rcases answer with _ | _ | ⟨element, taken⟩ <;> simp
  · split
    · simp
    · split
      · exact clean_error (by simp)
      · intro answer
        rcases answer with _ | taken <;> simp

theorem Lists.popped_clean (key : Bytes) (element : Option Bytes) :
    (Lists.popped key element).Clean := by
  cases element <;> simp [Lists.popped]

theorem Lists.parseTimeout_clean {timeout : Bytes}
    (refused : Lists.parseTimeout timeout = .error error) : error.Clean := by
  unfold Lists.parseTimeout at refused
  split at refused
  · cases refused
    exact clean_error (by simp)
  · split at refused
    · cases refused
      exact clean_error (by simp)
    · split at refused
      · cases refused
      · split at refused <;> cases refused
        exact clean_error (by simp)

theorem Lists.blpop_clean (key timeout : Bytes) :
    (Lists.blpop key timeout).Returns Value.Clean := by
  unfold Lists.blpop
  split
  · exact Lists.parseTimeout_clean ‹_›
  · intro answer
    rcases answer with _ | element | receiver
    · simp
    · exact Lists.popped_clean _ _
    · exact fun element => Lists.popped_clean _ element

theorem Lists.run_clean (found : Lists.run name args = some program) :
    program.Returns Value.Clean := by
  unfold Lists.run at found
  split at found <;> cases found
  · split
    · intro answer
      rcases answer with _ | length <;> simp
    · simp
  · split
    · intro answer
      rcases answer with _ | length <;> simp
    · simp
  · split
    · exact Lists.lpop_clean _ _
    · exact Lists.lpop_clean _ _
    · simp
  · split
    · exact Lists.blpop_clean _ _
    · simp
  · split
    · intro answer
      rcases answer with _ | length <;> simp
    · simp
  · split
    · unfold Lists.lrange
      split
      · intro answer
        rcases answer with _ | elements <;> simp
      · simp
    · simp

end

section

theorem Streams.clean_invalidId : Streams.invalidId.Clean := clean_error (by simp)

@[simp] theorem Streams.encodeEntry_clean (entry : StreamEntry) :
    (Streams.encodeEntry entry).Clean := by
  simp only [Streams.encodeEntry, clean_array, List.mem_cons, List.not_mem_nil, or_false]
  rintro part (rfl | rfl)
  · exact clean_bulk _
  · simp only [clean_array, List.mem_flatMap, List.mem_cons, List.not_mem_nil, or_false]
    rintro part ⟨pair, -, rfl | rfl⟩
    · exact clean_bulkString _
    · exact clean_bulkString _

theorem Streams.encodeStreams_clean (streams : List (Bytes × List StreamEntry)) :
    (Streams.encodeStreams streams).Clean := by
  unfold Streams.encodeStreams
  split
  · exact clean_nullArray
  · simp only [clean_array, List.mem_map]
    rintro part ⟨⟨key, entries⟩, -, rfl⟩
    simp

theorem Streams.xadd_clean (key id : Bytes) (fields : List Bytes) :
    (Streams.xadd key id fields).Returns Value.Clean := by
  unfold Streams.xadd
  split
  · exact Streams.clean_invalidId
  · intro answer
    rcases answer with (_ | _ | _) | id
    · simp
    · exact clean_error (by simp)
    · exact clean_error (by simp)
    · simp

theorem Streams.xrange_clean (key start stop : Bytes) :
    (Streams.xrange key start stop).Returns Value.Clean := by
  unfold Streams.xrange
  split
  · intro answer
    rcases answer with _ | entries <;> simp
  · exact Streams.clean_invalidId

theorem Streams.parsePending_clean {keys ids : List Bytes}
    (refused : Streams.parsePending keys ids = .error error) : error.Clean := by
  fun_induction Streams.parsePending keys ids with
  | case1 =>
    cases refused
    exact Streams.clean_invalidId
  | case2 key keys id ids isOpen ih => exact ih (error_of_map refused)
  | case3 =>
    cases refused
    exact Streams.clean_invalidId
  | case4 key keys id ids spelled _ isText after isId ih => exact ih (error_of_map refused)
  | case5 => cases refused

theorem Streams.parseStreams_clean {rest : List Bytes}
    (refused : Streams.parseStreams rest = .error error) : error.Clean := by
  unfold Streams.parseStreams at refused
  split at refused
  · cases refused
    simp
  · split at refused
    · split at refused
      · cases refused
        exact clean_error (by simp)
      · exact Streams.parsePending_clean refused
    · cases refused
      simp

theorem Streams.parseBlock_clean (refused : Streams.parseBlock args = .error error) :
    error.Clean := by
  unfold Streams.parseBlock at refused
  split at refused
  · split at refused
    · split at refused <;> cases refused
      exact clean_error (by simp)
    · cases refused
  · cases refused

theorem Streams.waitForEntries_clean (reads : List (Bytes × EntryId))
    (deadline : Option Instant) (rounds : Nat) :
    (Streams.waitForEntries reads deadline rounds).Returns Value.Clean := by
  induction rounds with
  | zero => exact fun reply => reply.elim
  | succ rounds ih =>
    intro answer
    rcases answer with _ | streams | waker
    · exact clean_wrongType
    · exact Streams.encodeStreams_clean streams
    · intro woken
      cases woken
      · exact clean_nullArray
      · exact ih

theorem Streams.readAfter_clean (server : Server) (wait : Streams.Wait) (rest : List Bytes) :
    (Streams.readAfter server wait rest).Returns Value.Clean := by
  unfold Streams.readAfter
  split
  · exact Streams.parseStreams_clean ‹_›
  · intro answer
    rcases answer with _ | reads
    · exact clean_wrongType
    · cases wait with
      | notAtAll =>
        intro answer
        rcases answer with _ | streams
        · exact clean_wrongType
        · exact Streams.encodeStreams_clean streams
      | «until» deadline => exact Streams.waitForEntries_clean _ _ _
      | forever => exact Streams.waitForEntries_clean _ _ _

theorem Streams.xread_clean (server : Server) (args : List Bytes) :
    (Streams.xread server args).Returns Value.Clean := by
  unfold Streams.xread
  split
  · exact Streams.parseBlock_clean ‹_›
  · exact Streams.readAfter_clean _ _ _
  · exact Streams.readAfter_clean _ _ _
  · rw [Program.returns_call]
    intro now
    -- the deadline is far too large a number to be looked into
    generalize instantAdd now _ = deadline
    cases deadline
    · exact fun reply => reply.elim
    · exact Streams.readAfter_clean _ _ _

theorem Streams.run_clean (found : Streams.run server name args = some program) :
    program.Returns Value.Clean := by
  unfold Streams.run at found
  split at found <;> cases found
  · split
    · split
      · exact Streams.xadd_clean _ _ _
      · simp
    · simp
  · split
    · exact Streams.xrange_clean _ _ _
    · simp
  · exact Streams.xread_clean _ _

end

section

variable [Platform]

omit [Platform] in
theorem SortedSets.score_clean {spelled : Bytes}
    (refused : SortedSets.score spelled = .error error) : error.Clean := by
  unfold SortedSets.score at refused
  split at refused
  · split at refused <;> cases refused
    simp
  · cases refused
    simp

omit [Platform] in
theorem SortedSets.scored_clean {pairs : List Bytes}
    (refused : SortedSets.scored pairs = .error error) : error.Clean := by
  fun_induction SortedSets.scored pairs with
  | case1 spelled member rest other isRefused =>
    cases refused
    exact SortedSets.score_clean isRefused
  | case2 spelled member rest score isScore ih =>
    exact ih (error_of_map refused)
  | case3 => cases refused

omit [Platform] in
theorem SortedSets.added_clean (answer : Except WrongType Nat) :
    (SortedSets.added answer).Clean := by
  cases answer <;> simp [SortedSets.added]

omit [Platform] in
theorem SortedSets.add_clean (key : Bytes) (pairs : List Bytes) :
    (SortedSets.add key pairs).Returns Value.Clean := by
  unfold SortedSets.add
  split
  · rename_i error refused
    unfold SortedSets.members at refused
    split at refused
    · exact SortedSets.scored_clean refused
    · cases refused
      simp
  · exact SortedSets.added_clean

theorem SortedSets.run_clean (found : SortedSets.run name args = some program) :
    program.Returns Value.Clean := by
  unfold SortedSets.run at found
  split at found <;> cases found
  · split
    · exact SortedSets.add_clean _ _
    · simp
  · split
    · intro answer
      rcases answer with _ | _ | rank <;> simp
    · simp
  · split
    · intro answer
      rcases answer with _ | removed <;> simp
    · simp
  · split
    · intro answer
      rcases answer with _ | _ | score <;> simp
    · simp
  · split
    · intro answer
      rcases answer with _ | members <;> simp
    · simp
  · split
    · unfold SortedSets.range
      split
      · intro answer
        rcases answer with _ | members <;> simp
      · simp
    · simp

theorem Geo.point_clean {longitude latitude : Bytes}
    (refused : Geo.point longitude latitude = .error error) : error.Clean := by
  unfold Geo.point at refused
  split at refused
  · split at refused <;> cases refused
    exact clean_error (by simp [Platform.showFixed_no_return])
  · cases refused
    simp

theorem Geo.measure_clean {unit : Bytes} (refused : Geo.measure unit = .error error) :
    error.Clean := by
  unfold Geo.measure at refused
  split at refused <;> cases refused
  exact clean_error (by simp)

theorem Geo.searchTerms_clean {centre : Option Geo.Point} {radius : Option Float}
    {terms : List Bytes} (refused : Geo.searchTerms centre radius terms = .error error) :
    error.Clean := by
  fun_induction Geo.searchTerms centre radius terms with
  | case1 => cases refused
  | case5 _ _ _ _ _ _ _ _ _ ih => exact ih refused
  | case6 _ _ _ _ _ _ _ _ isRefused =>
    cases refused
    exact Geo.point_clean isRefused
  | case8 _ _ _ _ _ _ _ _ _ _ _ ih => exact ih refused
  | case9 _ _ _ _ _ _ _ _ _ _ isRefused =>
    cases refused
    exact Geo.measure_clean isRefused
  | _ =>
    cases refused
    simp

theorem Geo.locations_clean {located : List Bytes}
    (refused : Geo.locations located = .error error) : error.Clean := by
  fun_induction Geo.locations located with
  | case1 longitude latitude name rest other isRefused =>
    cases refused
    exact Geo.point_clean isRefused
  | case2 longitude latitude name rest point isPoint ih =>
    exact ih (error_of_map refused)
  | case3 => cases refused

theorem Geo.add_clean (key : Bytes) (located : List Bytes) :
    (Geo.add key located).Returns Value.Clean := by
  unfold Geo.add
  split
  · split
    · exact Geo.locations_clean ‹_›
    · exact SortedSets.added_clean
  · simp

theorem Geo.position_clean {score : Float} {position : Value}
    (located : Geo.position score = some position) : position.Clean := by
  obtain ⟨point, -, rfl⟩ := Option.map_eq_some_iff.mp located
  simp

theorem Geo.positions_clean (key : Bytes) {found : List Value}
    (clean : ∀ position ∈ found, position.Clean) (places : List Bytes) :
    (Geo.positions key found places).Returns Value.Clean := by
  induction places generalizing found with
  | nil => exact clean_array.mpr clean
  | cons place places ih =>
    intro answer
    rcases answer with _ | _ | score
    · exact clean_wrongType
    · exact ih (by simpa [or_imp, forall_and] using clean)
    · cases located : Geo.position score with
      | none =>
        simp only [located]
        exact fun reply => reply.elim
      | some position =>
        simp only [located]
        apply ih
        simp only [List.mem_append, List.mem_singleton]
        rintro other (earlier | rfl)
        · exact clean other earlier
        · exact Geo.position_clean located

theorem Geo.distance_clean (key source target : Bytes) (unit : Option Bytes) :
    (Geo.distance key source target unit).Returns Value.Clean := by
  unfold Geo.distance
  split
  · rename_i error refused
    cases unit with
    | none => cases refused
    | some unit => exact Geo.measure_clean refused
  · intro source target
    dsimp only
    split
    · split
      · exact clean_bulk _
      · exact fun reply => reply.elim
    · exact clean_wrongType
    · exact clean_wrongType
    · exact clean_null

theorem Geo.search_clean (key : Bytes) (terms : List Bytes) :
    (Geo.search key terms).Returns Value.Clean := by
  unfold Geo.search
  split
  · exact Geo.searchTerms_clean ‹_›
  · intro answer
    rcases answer with _ | places
    · exact clean_wrongType
    · dsimp only
      split
      · exact clean_bulkStrings _
      · exact fun reply => reply.elim

theorem Geo.run_clean (found : Geo.run name args = some program) :
    program.Returns Value.Clean := by
  unfold Geo.run at found
  split at found <;> cases found
  · split
    · exact Geo.add_clean _ _
    · simp
  · split
    · exact Geo.positions_clean _ (by simp) _
    · simp
  · split
    · exact Geo.distance_clean _ _ _ _
    · exact Geo.distance_clean _ _ _ _
    · simp
  · split
    · exact Geo.search_clean _ _
    · simp

end

section

variable [Platform]

theorem runOnStore_clean (found : runOnStore server name args = some program) :
    program.Returns Value.Clean := by
  simp only [runOnStore, Option.orElse_eq_orElse, Option.orElse_eq_or,
    Option.or_eq_some_iff] at found
  rcases found with strings | ⟨-, lists | ⟨-, streams | ⟨-, sortedSets | ⟨-, geo | ⟨-, keys⟩⟩⟩⟩⟩
  · exact Strings.run_clean strings
  · exact Lists.run_clean lists
  · exact Streams.run_clean streams
  · exact SortedSets.run_clean sortedSets
  · exact Geo.run_clean geo
  · exact Keys.run_clean keys

end

/-! ## The commands on the server itself -/

theorem Info.run_clean (found : Info.run server name args = some program) :
    program.Returns Value.Clean := by
  have gathered (sections : List String) : ∀ written,
      (Info.report server written sections).Returns Value.Clean := by
    induction sections with
    | nil => exact fun written => clean_bulk written
    | cons wanted sections ih =>
      intro written
      unfold Info.report
      split
      · exact fun offset => ih _
      · exact ih written
  unfold Info.run at found
  split at found <;> cases found
  split
  · exact gathered _ _
  · exact gathered _ _

theorem Replication.waitProgram_clean (wait : Prog Nat) :
    Program.Returns Value.Clean ((fun caughtUp : Nat => Value.integer caughtUp) <$> wait) :=
  .map (.of_forall (fun _ => True.intro) _)

theorem Replication.run_clean (notPsync : name ≠ "PSYNC")
    (found : Replication.run server name args = some program) :
    program.Returns Value.Clean := by
  unfold Replication.run at found
  split at found <;> cases found
  · split <;> simp
  · exact absurd rfl notPsync
  · split
    · split
      · split
        · exact clean_error (by simp)
        · exact Replication.waitProgram_clean _
      · simp
    · simp

theorem Pubsub.run_clean {subscriptions : Subscriptions} {program : Prog (Value × Subscriptions)}
    (notOn : name ≠ "SUBSCRIBE") (notOff : name ≠ "UNSUBSCRIBE")
    (found : Pubsub.run name args subscriptions = some program) :
    program.Returns fun replied => replied.1.Clean := by
  unfold Pubsub.run at found
  split at found
  · cases found
    split
    · exact fun reached => True.intro
    · exact clean_wrongArity (by simp)
  · exact absurd rfl notOn
  · exact absurd rfl notOff
  · split at found <;> cases found
    simp
  · cases found

theorem Transactions.run_clean {transaction after : Transaction} {reply : Value}
    (found : Transactions.run name args transaction = some (reply, after)) :
    reply.Clean := by
  unfold Transactions.run at found
  split at found
  · split at found <;> cases found
    · exact clean_ok
    · exact clean_wrongArity (by simp)
  · cases found

end RedisServer
