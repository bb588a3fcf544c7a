import RedisServer.Server.Reading
import RedisServer.Server.Replicas
import RedisServer.Commands.Dispatch

/-!
# What a replica makes of its master's stream

The master's dataset comes first, laid out like a bulk string without its last line
end, and then every command the master passes on.  A replica carries the commands out,
counts their bytes, and says how far it has got when it is asked.
-/

namespace RedisServer

/-! ## The file -/

/-- What keeps a replica from taking in a file. -/
inductive FileError where
  | expectedFile (found : String)
  | length (error : ParseError)

/-- Reads the length off the front of a file, along with how many bytes the length
itself took up.  `none` means the length is not all there yet. -/
def fileHeader (heard : Bytes) : Except FileError (Option (Nat × Nat)) :=
  match line heard with
  | none => .ok none
  | some (opening, _) =>
    match opening with
    | 36 :: length =>
      match headerLength length with
      | .ok length => .ok (some (length, opening.length + 2))
      | .error error => .error (.length error)
    | _ => .error (.expectedFile (fromUtf8Lossy opening))

/-- Reads until the header of the file is there.  `none` is a replica still waiting for
it, here and below. -/
def takeHeader : Bytes → List Bytes →
    Except FileError (Option ((Nat × Nat) × Bytes × List Bytes))
  | heard, reads =>
    match fileHeader heard with
    | .error error => .error error
    | .ok (some found) => .ok (some (found, heard, reads))
    | .ok none =>
      match reads with
      | [] => .ok none
      | read :: reads => takeHeader (heard ++ read) reads

/-- Reads until so many bytes are there. -/
def fillTo (wanted : Nat) : Bytes → List Bytes → Option (Bytes × List Bytes)
  | heard, reads =>
    if heard.length < wanted then
      match reads with
      | [] => none
      | read :: reads => fillTo wanted (heard ++ read) reads
    else some (heard, reads)

/-- Takes in the file the master sends once it has agreed to sync. -/
def takeFile (heard : Bytes) (reads : List Bytes) :
    Except FileError (Option (Bytes × Bytes × List Bytes)) :=
  match takeHeader heard reads with
  | .error error => .error error
  | .ok none => .ok none
  | .ok (some ((length, header), heard, reads)) =>
    match fillTo (header + length) heard reads with
    | none => .ok none
    | some (heard, reads) =>
      let heard := heard.drop header
      .ok (some (heard.take length, heard.drop length, reads))

theorem takeHeader_whole {length : Nat} (fits : length ≤ usizeMax) {heard : Bytes}
    {reads : List Bytes} {rest : Bytes}
    (stream : heard ++ reads.flatten = header 36 (decimal length) ++ rest) :
    ∃ later others, takeHeader heard reads =
        .ok (some ((length, (header 36 (decimal length)).length), later, others)) ∧
      later ++ others.flatten = header 36 (decimal length) ++ rest := by
  have opened := line_numbered 36 (by decide) length rest
  rw [← stream] at opened
  induction reads generalizing heard with
  | nil =>
    refine ⟨heard, [], ?_, stream⟩
    rw [List.flatten_nil, List.append_nil] at opened
    simp [takeHeader, fileHeader, opened, headerLength_decimal fits, header, crlf]
  | cons read reads ih =>
    cases known : line heard with
    | none =>
      rw [List.flatten_cons, ← List.append_assoc] at stream opened
      simpa [takeHeader, fileHeader, known] using ih stream opened
    | some found =>
      -- What is found in part of the stream is found in the whole.
      obtain ⟨opening, after⟩ := found
      rw [line_append known] at opened
      cases opened
      refine ⟨heard, read :: reads, ?_, stream⟩
      simp [takeHeader, fileHeader, known, headerLength_decimal fits, header, crlf]

theorem fillTo_whole {wanted : Nat} {heard : Bytes} {reads : List Bytes}
    (enough : wanted ≤ (heard ++ reads.flatten).length) :
    ∃ later others, fillTo wanted heard reads = some (later, others) ∧
      wanted ≤ later.length ∧ later ++ others.flatten = heard ++ reads.flatten := by
  induction reads generalizing heard with
  | nil =>
    rw [List.flatten_nil, List.append_nil] at enough
    exact ⟨heard, [], by simp [fillTo, enough], enough, rfl⟩
  | cons read reads ih =>
    by_cases short : heard.length < wanted
    · rw [List.flatten_cons, ← List.append_assoc] at enough ⊢
      simpa [fillTo, short] using ih enough
    · exact ⟨heard, read :: reads, by simp [fillTo, short], Nat.le_of_not_lt short, rfl⟩

/-- A replica takes in the whole of the dataset and leaves what comes after it. -/
theorem takeFile_whole {dataset : Bytes} (fits : dataset.length ≤ usizeMax) {heard : Bytes}
    {reads : List Bytes} {rest : Bytes}
    (stream : heard ++ reads.flatten = (Value.file dataset).encode ++ rest) :
    ∃ later others, takeFile heard reads = .ok (some (dataset, later, others)) ∧
      later ++ others.flatten = rest := by
  rw [Value.encode, List.append_assoc] at stream
  obtain ⟨opened, pending, hasHeader, sameStream⟩ := takeHeader_whole fits stream
  have enough : (header 36 (decimal dataset.length)).length + dataset.length ≤
      (opened ++ pending.flatten).length := by
    simp only [sameStream, List.length_append]
    omega
  obtain ⟨filled, others, isFilled, long, unchanged⟩ := fillTo_whole enough
  rw [sameStream] at unchanged
  obtain ⟨after, isWhole⟩ : ∃ after,
      filled = header 36 (decimal dataset.length) ++ dataset ++ after := by
    have whole : header 36 (decimal dataset.length) ++ dataset <+: filled := by
      refine List.prefix_of_prefix_length_le ?_ (List.prefix_append filled others.flatten) ?_
      · rw [unchanged, ← List.append_assoc]
        exact List.prefix_append _ _
      · simpa using long
    exact whole.imp fun _ isWhole => isWhole.symm
  subst isWhole
  refine ⟨after, others, ?_, ?_⟩
  · simp [takeFile, hasHeader, isFilled, List.append_assoc]
  · simpa [List.append_assoc] using unchanged

/-! ## The commands -/

/-- Whether the master is asking the replica how much of the stream it has taken in,
rather than telling it something. -/
def asksHowFar : Value → Bool
  | .array (.bulkString name :: .bulkString option :: _) =>
    eqIgnoreAsciiCase name (utf8 "REPLCONF") && eqIgnoreAsciiCase option (utf8 "GETACK")
  | _ => false

/-- How a replica says how far it has got. -/
def acknowledgement (offset : Nat) : Value :=
  asCommand [utf8 "REPLCONF", utf8 "ACK", utf8 (toString offset)]

/-- A command a replica has taken in: what it said back, and how far along the stream it
then was. -/
structure Taken where
  command : Value
  said : Option Value
  offset : Nat

/-- What a replica has come to: the commands taken in, the state they have left it in
unless one of them does not end, and what put an end to the following. -/
structure KeptUp (σ : Type) where
  taken : List Taken
  state : Option σ
  error : Option ParseError

section

variable {σ : Type} (carryOut : σ → Value → Option σ)

/-- What a replica does with a command.  It answers the one that asks how far it has got
and carries out the others, unless carrying one out does not end. -/
def takeIn (state : σ) (command : Value) : Option σ :=
  if asksHowFar command then some state else carryOut state command

/-- Takes in what the master passes on, for as long as there is more. -/
def keepUp : Nat → Nat → σ → Bytes → List Bytes → KeptUp σ
  | 0, _, state, _, _ => ⟨[], some state, none⟩
  | fuel + 1, offset, state, heard, reads =>
    match hear heard reads with
    | (.error error, _, _) => ⟨[], some state, some error⟩
    | (.ok none, _, _) => ⟨[], some state, none⟩
    | (.ok (some (command, length)), heard, reads) =>
      match takeIn carryOut state command with
      | none => ⟨[], none, none⟩
      | some state =>
        let said := if asksHowFar command then some (acknowledgement offset) else none
        let later := keepUp fuel (offset + length) state heard reads
        { later with taken := ⟨command, said, offset + length⟩ :: later.taken }

/-- Takes in all there is. -/
def keepUpAll (offset : Nat) (state : σ) (heard : Bytes) (reads : List Bytes) : KeptUp σ :=
  keepUp carryOut (heard.length + reads.flatten.length + 1) offset state heard reads

end

/-- What is taken in of a list of commands and their lengths, from an offset on. -/
def takings (offset : Nat) : List (Value × Nat) → List Taken
  | [] => []
  | (command, length) :: commands =>
    ⟨command, if asksHowFar command then some (acknowledgement offset) else none,
      offset + length⟩ :: takings (offset + length) commands

section

variable {σ : Type} {carryOut : σ → Value → Option σ}

/-- A replica takes in what it hears. -/
theorem keepUp_eq_hearAll {fuel offset : Nat} {state last : σ} {heard : Bytes}
    {reads : List Bytes}
    (ends : ((hearAll fuel heard reads).items.map Prod.fst).foldlM (takeIn carryOut) state =
      some last) :
    keepUp carryOut fuel offset state heard reads =
      ⟨takings offset (hearAll fuel heard reads).items, some last,
        (hearAll fuel heard reads).error⟩ := by
  induction fuel generalizing offset state heard reads with
  | zero =>
    cases ends
    rfl
  | succ fuel ih =>
    rw [hearAll] at ends ⊢
    rw [keepUp]
    rcases isHeard : hear heard reads with ⟨error | _ | ⟨command, length⟩, later, others⟩
    · simp only [isHeard] at ends
      cases ends
      rfl
    · simp only [isHeard] at ends
      cases ends
      rfl
    · simp only [isHeard, Framing.Scan.after_items, List.map_cons, List.singleton_append,
        List.foldlM_cons] at ends
      obtain ⟨next, isNext, restEnds⟩ := Option.bind_eq_some_iff.mp ends
      simp only [isNext, ih restEnds]
      rfl

end

theorem takings_commands (offset : Nat) (items : List (Value × Nat)) :
    (takings offset items).map Taken.command = items.map Prod.fst := by
  induction items generalizing offset with
  | nil => rfl
  | cons item items ih => simp [takings, ih]

theorem takings_offset {items : List (Value × Nat)} {index : Nat}
    (within : index < items.length) (offset : Nat) :
    ((takings offset items)[index]?).map Taken.offset =
      some (offset + ((items.take (index + 1)).map Prod.snd).sum) := by
  induction items generalizing offset index with
  | nil => cases within
  | cons item items ih =>
    cases index with
    | zero => simp [takings]
    | succ index =>
      simp only [takings, List.getElem?_cons_succ, ih (Nat.lt_of_succ_lt_succ within),
        List.take_succ_cons, List.map_cons, List.sum_cons, Nat.add_assoc]

/-- How a replica carries a command out: as any connection would, on a store of its
own.  `supply` is what its environment decides, and the count how much of it is used
up. -/
def carryOutOn [Platform] (server : Server) (supply : Nat → Env) (here : (Nat × World) × Client)
    (command : Value) : Option ((Nat × World) × Client) :=
  match (run server here.2 command).exec machine supply here.1.1 here.1.2 with
  | .done world (_, client) => some (world, client)
  | _ => none

theorem drain_commands {commands : List Value}
    (readable : ∀ command ∈ commands, command.Readable ∧ command.depth ≤ maxDepth) :
    drain (encodeAll commands) =
      ⟨commands.map fun command => (command, command.encode.length), [], none⟩ := by
  rw [encodeAll_eq_flatMap]
  refine Framing.scanAll_flatMap reader_stable rfl ?_
  intro command member
  have delimits := (readable command member).1.delimits command maxDepth
    (readable command member).2
  rwa [show reader = value maxDepth from funext reader_eq_value]

/-- A replica takes in every command of the stream. -/
theorem keepUpAll_commands {σ : Type} {carryOut : σ → Value → Option σ} {offset : Nat}
    {state last : σ} {heard : Bytes} {reads : List Bytes} {commands : List Value}
    (readable : ∀ command ∈ commands, command.Readable ∧ command.depth ≤ maxDepth)
    (stream : heard ++ reads.flatten = encodeAll commands)
    (ends : commands.foldlM (takeIn carryOut) state = some last) :
    keepUpAll carryOut offset state heard reads =
      ⟨takings offset (commands.map fun command => (command, command.encode.length)),
        some last, none⟩ := by
  have ample : (heard ++ reads.flatten).length < heard.length + reads.flatten.length + 1 := by
    simp
  have isHeard := hearAll_eq_drain ample
  rw [stream, drain_commands readable] at isHeard
  have sameEnd : ((hearAll (heard.length + reads.flatten.length + 1) heard reads).items.map
      Prod.fst).foldlM (takeIn carryOut) state = some last := by
    simpa only [isHeard, List.map_map, Function.comp_def, List.map_id'] using ends
  rw [keepUpAll, keepUp_eq_hearAll sameEnd, isHeard]

end RedisServer
