import RedisServer.Wire
import RedisServer.Lib.Stream

/-!
# How commands are read off a connection

A connection buffers what arrives and parses until only part of a value is left.
Three loops do so: the one that serves a client, the one that listens to a replica,
and the one a replica hears its master with.  What they find does not depend on how
the bytes were cut up on the way.
-/

namespace RedisServer

/-! ## What is found stays found -/

/-- What reading comes to once more has arrived: a value or an error found before is
found again. -/
def Parsed.Grows {α : Type} (more : Bytes) (before later : Parsed α) : Prop :=
  match before with
  | .error error => later = .error error
  | .ok none => True
  | .ok (some (found, rest)) => later = .ok (some (found, rest ++ more))

namespace Parsed

variable {α : Type} {more : Bytes} {later : Parsed α}

@[simp] theorem grows_error (error : ParseError) :
    Grows more (.error error) later ↔ later = .error error := Iff.rfl

@[simp] theorem grows_none : Grows more (.ok none) later ↔ True := Iff.rfl

@[simp] theorem grows_some (found : α) (rest : Bytes) :
    Grows more (.ok (some (found, rest))) later ↔ later = .ok (some (found, rest ++ more)) :=
  Iff.rfl

theorem Grows.map {β : Type} {before : Parsed α} (grows : Grows more before later)
    (image : α → β) :
    Grows more (before.map (Option.map fun found => (image found.1, found.2)))
      (later.map (Option.map fun found => (image found.1, found.2))) := by
  rcases before with error | _ | ⟨found, rest⟩
  · rw [grows_error] at grows
    rw [grows]
    rfl
  · exact True.intro
  · rw [grows_some] at grows
    rw [grows]
    rfl

end Parsed

theorem line_append {input found rest : Bytes} (opened : line input = some (found, rest))
    (more : Bytes) : line (input ++ more) = some (found, rest ++ more) := by
  induction input generalizing found with
  | nil => cases opened
  | cons byte input ih =>
    cases input with
    | nil => cases opened
    | cons next input =>
      simp only [List.cons_append, line] at opened ⊢
      split
      · rename_i isEnd
        rw [if_pos isEnd] at opened
        cases opened
        rfl
      · rename_i noEnd
        rw [if_neg noEnd] at opened
        obtain ⟨⟨tail, after⟩, tailRead, isFound⟩ := Option.map_eq_some_iff.mp opened
        cases isFound
        rw [← List.cons_append, ih tailRead]
        rfl

theorem line_shorter {input found rest : Bytes} (opened : line input = some (found, rest)) :
    rest.length < input.length := by
  induction input generalizing found with
  | nil => cases opened
  | cons byte input ih =>
    cases input with
    | nil => cases opened
    | cons next input =>
      simp only [line] at opened
      split at opened
      · cases opened
        simp only [List.length_cons]
        omega
      · obtain ⟨⟨tail, after⟩, tailRead, isFound⟩ := Option.map_eq_some_iff.mp opened
        cases isFound
        exact (ih tailRead).trans (Nat.lt_succ_self _)

theorem bulkString_grows (payload rest more : Bytes) :
    Parsed.Grows more (bulkString payload rest) (bulkString payload (rest ++ more)) := by
  unfold bulkString
  split
  · rfl
  · rename_i length _
    split
    · rfl
    · split
      · exact True.intro
      · rename_i enough
        have stillEnough : ¬ (rest ++ more).length < length + 2 := by
          simp only [List.length_append]
          omega
        rw [if_neg stillEnough]
        simp only [Parsed.Grows, List.take_append_of_le_length (by omega : length ≤ rest.length),
          List.drop_append_of_le_length (by omega : length + 2 ≤ rest.length)]

theorem elements_grows {read : Bytes → Parsed Value} {more : Bytes}
    (grows : ∀ input, Parsed.Grows more (read input) (read (input ++ more))) (count : Nat)
    (input : Bytes) :
    Parsed.Grows more (elements read count input) (elements read count (input ++ more)) := by
  induction count generalizing input with
  | zero => rfl
  | succ count ih =>
    have first := grows input
    simp only [elements]
    cases isRead : read input with
    | error error =>
      rw [isRead, Parsed.grows_error] at first
      simp [first]
    | ok result =>
      rcases result with _ | ⟨found, rest⟩
      · exact True.intro
      · rw [isRead, Parsed.grows_some] at first
        have others := ih rest
        cases later : elements read count rest with
        | error error =>
          rw [later, Parsed.grows_error] at others
          simp [first, later, others]
        | ok result =>
          rcases result with _ | ⟨values, last⟩
          · simp [later]
          · rw [later, Parsed.grows_some] at others
            simp [first, later, others]

/-- A value, and equally an error, found in what has arrived is found unchanged once
more arrives. -/
theorem value_grows (room : Nat) (input more : Bytes) :
    Parsed.Grows more (value room input) (value room (input ++ more)) := by
  induction room using Nat.strong_induction_on generalizing input with
  | _ room ih =>
    rw [value]
    cases opened : line input with
    | none => exact True.intro
    | some found =>
      rw [value, line_append opened more]
      obtain ⟨_ | ⟨kind, payload⟩, rest⟩ := found
      · rfl
      · dsimp only
        split
        · cases headerText payload <;> rfl
        · split
          · cases headerText payload <;> rfl
          · split
            · cases headerText payload with
              | error error => rfl
              | ok content =>
                dsimp only
                cases parseSigned i64Max content <;> rfl
            · split
              · exact bulkString_grows payload rest more
              · split
                · cases room with
                  | zero => rfl
                  | succ room =>
                    dsimp only
                    cases headerLength payload with
                    | error error => rfl
                    | ok length =>
                      exact (elements_grows (ih room (Nat.lt_succ_self room))
                        length rest).map Value.array
                · rfl

theorem reader_stable : Framing.Stable reader where
  found {input rest item} isFound more := by
    rw [reader_eq_value] at isFound ⊢
    have grows := value_grows maxDepth input more
    rwa [isFound, Parsed.grows_some] at grows
  failed {input error} isError more := by
    rw [reader_eq_value] at isError ⊢
    have grows := value_grows maxDepth input more
    rwa [isError, Parsed.grows_error] at grows
  shorter {input rest item} isFound := by
    rw [reader_eq_value] at isFound
    obtain ⟨kind, payload, after, opened, cases⟩ := value_eq_some isFound
    have short := line_shorter opened
    rcases cases with ⟨_, _, _, _, rfl⟩ | ⟨_, _, _, _, rfl⟩ | ⟨_, _, _, _, _, _, rfl⟩ |
      ⟨length, _, _, _, _, _, rfl⟩ | ⟨inner, length, values, _, _, _, inside, _⟩
    · exact short
    · exact short
    · exact short
    · rw [List.length_drop]
      omega
    · have suffix := elements_suffix (fun _ _ _ read => value_suffix read) inside
      exact suffix.length_le.trans_lt short

/-! ## The three loops -/

/-- What is read off a buffer: the values, how many bytes each took up, and what put an
end to it. -/
abbrev Heard := Framing.Scan UInt8 Value ParseError

/-- Parses what is in the buffer until it holds only part of a value. -/
def drain (buffer : Bytes) : Heard := Framing.scanAll reader buffer

/-- The loop that serves a client: a read is buffered, and then the buffer is drained.
A protocol error ends the connection, and what was never read is left. -/
def serve : Bytes → List Bytes → Heard
  | buffer, [] => ⟨[], buffer, none⟩
  | buffer, read :: reads =>
    let drained := drain (buffer ++ read)
    match drained.error with
    | some error => ⟨drained.items, drained.left ++ reads.flatten, some error⟩
    | none => (serve drained.left reads).after drained.items

/-- The loop that listens to a replica: what is left over from before is made sense of
first, and then more is read. -/
def keepUpToDate : Bytes → List Bytes → Heard
  | heard, reads =>
    let drained := drain heard
    match drained.error with
    | some error => ⟨drained.items, drained.left ++ reads.flatten, some error⟩
    | none =>
      match reads with
      | [] => drained
      | read :: reads => (keepUpToDate (drained.left ++ read) reads).after drained.items

/-- Reads one value, reading more until a whole one arrives.  `none` is a replica
still waiting for it. -/
def hear : Bytes → List Bytes → Except ParseError (Option (Value × Nat)) × Bytes × List Bytes
  | heard, reads =>
    match parse heard with
    | .error error => (.error error, heard, reads)
    | .ok (some (found, consumed)) => (.ok (some (found, consumed)), heard.drop consumed, reads)
    | .ok none =>
      match reads with
      | [] => (.ok none, heard, [])
      | read :: reads => hear (heard ++ read) reads

/-- Hears one value after another. -/
def hearAll : Nat → Bytes → List Bytes → Heard
  | 0, heard, reads => ⟨[], heard ++ reads.flatten, none⟩
  | fuel + 1, heard, reads =>
    match hear heard reads with
    | (.error error, heard, reads) => ⟨[], heard ++ reads.flatten, some error⟩
    | (.ok none, heard, reads) => ⟨[], heard ++ reads.flatten, none⟩
    | (.ok (some found), heard, reads) => (hearAll fuel heard reads).after [found]

/-- Hears all there is to hear.  A value takes up at least a byte, so that there are
no more of them than bytes. -/
def hearEvery (heard : Bytes) (reads : List Bytes) : Heard :=
  hearAll (heard.length + reads.flatten.length + 1) heard reads

/-- Serving finds what is in the stream, as long as nothing was in the buffer before. -/
theorem serve_eq_drain {buffer : Bytes} (spent : drain buffer = ⟨[], buffer, none⟩)
    (reads : List Bytes) : serve buffer reads = drain (buffer ++ reads.flatten) := by
  induction reads generalizing buffer with
  | nil => simp [serve, spent]
  | cons read reads ih =>
    have whole := Framing.scanAll_append reader_stable (buffer ++ read) reads.flatten
    rw [List.flatten_cons, ← List.append_assoc]
    simp only [serve, drain]
    rw [whole]
    cases failed : (Framing.scanAll reader (buffer ++ read)).error with
    | some error => rfl
    | none =>
      have left := Framing.scanAll_left reader_stable (buffer ++ read) failed
      simp only [ih left]
      rfl

/-- Listening finds what is in the stream. -/
theorem keepUpToDate_eq_drain (heard : Bytes) (reads : List Bytes) :
    keepUpToDate heard reads = drain (heard ++ reads.flatten) := by
  induction reads generalizing heard with
  | nil =>
    rw [keepUpToDate, List.flatten_nil]
    generalize isDrained : drain (heard ++ []) = drained
    rw [List.append_nil] at isDrained
    rw [isDrained]
    obtain ⟨items, left, _ | error⟩ := drained
    · rfl
    · simp
  | cons read reads ih =>
    have whole := Framing.scanAll_append reader_stable heard (read ++ reads.flatten)
    rw [keepUpToDate, List.flatten_cons]
    simp only [drain] at ih ⊢
    rw [whole]
    cases failed : (Framing.scanAll reader heard).error with
    | some error => rfl
    | none => simp only [ih, List.append_assoc]

theorem consumed_le {input : Bytes} {found : Value} {consumed : Nat}
    (parsed : parse input = .ok (some (found, consumed))) : consumed ≤ input.length := by
  unfold parse at parsed
  generalize value maxDepth input = read at parsed
  rcases read with error | _ | ⟨other, rest⟩
  · cases parsed
  · cases parsed
  · cases parsed
    exact Nat.sub_le _ _

/-- What is heard is what is at the front of the stream. -/
inductive Hears (stream : Bytes) :
    Except ParseError (Option (Value × Nat)) × Bytes × List Bytes → Prop
  | error {error : ParseError} {heard : Bytes} {reads : List Bytes}
      (failed : reader stream = .error error) (left : heard ++ reads.flatten = stream) :
      Hears stream (.error error, heard, reads)
  | waiting {heard : Bytes} {reads : List Bytes} (nothing : reader stream = .ok none)
      (left : heard ++ reads.flatten = stream) : Hears stream (.ok none, heard, reads)
  | found {found : Value} {consumed : Nat} {heard : Bytes} {reads : List Bytes}
      (isFound : reader stream = .ok (some (found, heard ++ reads.flatten)))
      (taken : consumed = stream.length - (heard ++ reads.flatten).length) :
      Hears stream (.ok (some (found, consumed)), heard, reads)

theorem hear_hears (heard : Bytes) (reads : List Bytes) :
    Hears (heard ++ reads.flatten) (hear heard reads) := by
  induction reads generalizing heard with
  | nil =>
    rw [hear]
    cases parsed : parse heard with
    | error error => exact .error (by simp [reader, parsed, Except.map]) rfl
    | ok result =>
      rcases result with _ | ⟨found, consumed⟩
      · exact .waiting (by simp [reader, parsed, Except.map]) rfl
      · have fits := consumed_le parsed
        refine .found (by simp [reader, parsed, Except.map]) ?_
        simp only [List.flatten_nil, List.append_nil, List.length_drop]
        omega
  | cons read reads ih =>
    rw [hear]
    cases parsed : parse heard with
    | error error =>
      have failed : reader heard = .error error := by simp [reader, parsed, Except.map]
      exact .error (reader_stable.failed failed _) rfl
    | ok result =>
      rcases result with _ | ⟨found, consumed⟩
      · have later := ih (heard ++ read)
        rwa [List.append_assoc, ← List.flatten_cons] at later
      · have fits := consumed_le parsed
        have isFound : reader heard = .ok (some (found, heard.drop consumed)) := by
          simp [reader, parsed, Except.map]
        refine .found (reader_stable.found isFound _) ?_
        simp only [List.length_append, List.length_drop]
        omega

/-- Hearing one value after another finds what is in the stream. -/
theorem hearAll_eq_drain {fuel : Nat} {heard : Bytes} {reads : List Bytes}
    (ample : (heard ++ reads.flatten).length < fuel) :
    hearAll fuel heard reads = drain (heard ++ reads.flatten) := by
  induction fuel generalizing heard reads with
  | zero => omega
  | succ fuel ih =>
    have hears := hear_hears heard reads
    rw [hearAll, drain, Framing.scanAll_eq reader_stable]
    generalize heard ++ reads.flatten = stream at hears ample
    generalize hear heard reads = next at hears
    cases hears with
    | error failed left => simp only [failed, left]
    | waiting nothing left => simp only [nothing, left]
    | @found found consumed later others isFound taken =>
      have shorter := reader_stable.shorter isFound
      have rest := @ih later others (by omega)
      simp only [isFound, taken, rest]
      rfl

/-- However a stream is cut into reads, each of the loops finds the same values, of the
same lengths, leaves the same bytes, and stops at the same error or at none. -/
theorem reads_independent (heard : Bytes) (first second : List Bytes)
    (sameStream : first.flatten = second.flatten) :
    serve [] first = serve [] second ∧
      keepUpToDate heard first = keepUpToDate heard second ∧
      hearEvery heard first = hearEvery heard second := by
  refine ⟨?_, ?_, ?_⟩
  · rw [serve_eq_drain rfl, serve_eq_drain rfl, sameStream]
  · rw [keepUpToDate_eq_drain, keepUpToDate_eq_drain, sameStream]
  · have ample (reads : List Bytes) :
        (heard ++ reads.flatten).length < heard.length + reads.flatten.length + 1 := by
      simp
    rw [hearEvery, hearEvery, hearAll_eq_drain (ample first), hearAll_eq_drain (ample second),
      sameStream]

theorem reads_independent_of_torn_end :
    [[43, 79, 75, 13], [10, 58]].flatten = [[43], [79, 75, 13, 10, 58]].flatten ∧
      serve [] [[43, 79, 75, 13], [10, 58]] = serve [] [[43], [79, 75, 13, 10, 58]] :=
  ⟨rfl, (reads_independent [] [[43, 79, 75, 13], [10, 58]] [[43], [79, 75, 13, 10, 58]] rfl).1⟩

end RedisServer
