import RedisServer.Aof
import RedisServer.Server.Reading

/-!
# What the parser accepts

A value is spelled by a header and what the header announces.  The parser holds an input to
that but for two things: the two bytes after a bulk string's payload are passed over
unread, and a header that is not ended yet is not looked at.  What it accepts is spelled
right exactly when nothing else was let through there.
-/

namespace RedisServer

variable {room fuel length count : Nat} {input rest payload bytes more after body log : Bytes}
  {found : Value} {kind : UInt8} {commands values : List Value} {outcome : Option (Value × Bytes)}

/-! ## The grammar -/

/-- What a header opens: a value of its own, a payload of some length, or values to come. -/
inductive Opening where
  | value (found : Value)
  | bytes (length : Nat)
  | values (room length : Nat)

/-- What the text of a header announces, with room for so many arrays inside each other. -/
inductive Header : Nat → UInt8 → Bytes → Opening → Prop where
  | simpleString {room : Nat} {payload : Bytes} {content : String}
      (spelled : headerText payload = .ok content) :
      Header room 43 payload (.value (.simpleString content))
  | error {room : Nat} {payload : Bytes} {content : String}
      (spelled : headerText payload = .ok content) :
      Header room 45 payload (.value (.error content))
  | integer {room : Nat} {payload : Bytes} {content : String} {number : Int}
      (spelled : headerText payload = .ok content)
      (isNumber : parseSigned i64Max content = .ok number) :
      Header room 58 payload (.value (.integer number))
  | bulkString {room : Nat} {payload : Bytes} {length : Nat}
      (announced : headerLength payload = .ok length) : Header room 36 payload (.bytes length)
  | array {room : Nat} {payload : Bytes} {length : Nat}
      (announced : headerLength payload = .ok length) :
      Header (room + 1) 42 payload (.values room length)

mutual
/-- A value spelled out, with room for so many arrays inside each other. -/
inductive Spelt : Nat → Value → Bytes → Prop where
  | alone {room : Nat} {kind : UInt8} {payload : Bytes} {found : Value}
      (oneLine : line (kind :: payload) = none)
      (opens : Header room kind payload (.value found)) :
      Spelt room found (header kind payload)
  | bulkString {room : Nat} {kind : UInt8} {payload bytes : Bytes}
      (oneLine : line (kind :: payload) = none)
      (opens : Header room kind payload (.bytes bytes.length)) :
      Spelt room (.bulkString bytes) (header kind payload ++ (bytes ++ crlf))
  | array {room inner : Nat} {kind : UInt8} {payload body : Bytes} {values : List Value}
      (oneLine : line (kind :: payload) = none)
      (opens : Header room kind payload (.values inner values.length))
      (spelled : SpeltAll inner values body) :
      Spelt room (.array values) (header kind payload ++ body)

/-- Values spelled out one after another. -/
inductive SpeltAll : Nat → List Value → Bytes → Prop where
  | nil {room : Nat} : SpeltAll room [] []
  | cons {room : Nat} {found : Value} {values : List Value} {bytes body : Bytes}
      (first : Spelt room found bytes) (others : SpeltAll room values body) :
      SpeltAll room (found :: values) (bytes ++ body)
end

/-- A header that announces something. -/
def Readable (room : Nat) (head : Bytes) : Prop :=
  ∃ kind payload opening, head = kind :: payload ∧ line head = none ∧
    Header room kind payload opening

/-! ## What is let through -/

/-- What the parser does not hold an input to: the bytes after a payload, as far as they are
there, and a header that is not ended, with the room there is for what it opens. -/
inductive Loose where
  | ending (bytes : Bytes)
  | header (room : Nat) (bytes : Bytes)
  deriving DecidableEq

/-- What the bytes let through should have been. -/
def Loose.Regular : Loose → Prop
  | .ending bytes => bytes <+: crlf
  | .header room bytes => ∃ head, Readable room head ∧ bytes <+: head ++ crlf

/-- What is let through in so many values. -/
def looseElements (read : Bytes → Parsed Value) (loose : Bytes → List Loose) :
    Nat → Bytes → List Loose
  | 0, _ => []
  | count + 1, rest =>
    loose rest ++
      match read rest with
      | .ok (some (_, rest)) => looseElements read loose count rest
      | _ => []

/-- What is let through in the value at the front of an input. -/
def loose (room : Nat) (input : Bytes) : List Loose :=
  match line input with
  | none => [.header room input]
  | some ([], _) => []
  | some (kind :: payload, rest) =>
    if kind = 36 then
      match headerLength payload with
      | .ok length => [.ending ((rest.drop length).take 2)]
      | .error _ => []
    else if kind = 42 then
      match room with
      | 0 => []
      | room + 1 =>
        match headerLength payload with
        | .ok length => looseElements (value room) (loose room) length rest
        | .error _ => []
    else []

/-- What is let through in a log. -/
def looseIn : Nat → Bytes → List Loose
  | 0, _ => []
  | _ + 1, [] => []
  | fuel + 1, head :: tail =>
    loose maxDepth (head :: tail) ++
      match value maxDepth (head :: tail) with
      | .ok (some (_, rest)) => looseIn fuel rest
      | _ => []

/-! ## The parser, by what a header opens -/

/-- What the parser makes of the rest of the input once it has read a header. -/
def Opening.read : Opening → Bytes → Parsed Value
  | .value found, rest => .ok (some (found, rest))
  | .bytes length, rest =>
    if maxBulkLength < length then .error .bulkLength
    else if rest.length < length + 2 then .ok none
    else .ok (some (.bulkString (rest.take length), rest.drop (length + 2)))
  | .values room length, rest =>
    (elements (RedisServer.value room) length rest).map
      (Option.map fun found => (.array found.1, found.2))

/-- What is let through past a header. -/
def Opening.loose : Opening → Bytes → List Loose
  | .value _, _ => []
  | .bytes length, rest => [.ending ((rest.drop length).take 2)]
  | .values room length, rest =>
    looseElements (RedisServer.value room) (RedisServer.loose room) length rest

theorem value_of_header {opening : Opening} (opened : line input = some (kind :: payload, rest))
    (opens : Header room kind payload opening) : value room input = opening.read rest := by
  unfold value
  rw [opened]
  cases opens with
  | simpleString spelled => simp [spelled, Opening.read, Except.map]
  | error spelled => simp [spelled, Opening.read, Except.map]
  | integer spelled isNumber => simp [spelled, isNumber, Opening.read]
  | bulkString announced => simp [bulkString, announced, Opening.read]
  | array announced => simp [announced, Opening.read]

theorem loose_of_header {opening : Opening} (opened : line input = some (kind :: payload, rest))
    (opens : Header room kind payload opening) : loose room input = opening.loose rest := by
  unfold loose
  rw [opened]
  cases opens with
  | simpleString _ | error _ | integer _ _ => rfl
  | bulkString announced => simp [announced, Opening.loose]
  | array announced => simp [announced, Opening.loose]

theorem regular_bytes :
    (∀ event ∈ (Opening.bytes length).loose after, event.Regular) ↔
      (after.drop length).take 2 <+: crlf := by
  rw [Opening.loose, List.forall_mem_singleton, Loose.Regular]

/-- A header the parser does not refuse announces something. -/
theorem exists_header {head : Bytes} (opened : line input = some (head, rest))
    (read : value room input = .ok outcome) :
    ∃ kind payload opening, head = kind :: payload ∧ Header room kind payload opening := by
  cases head with
  | nil => simp [value, opened] at read
  | cons kind payload =>
    suffices opens : ∃ opening, Header room kind payload opening from
      let ⟨opening, opens⟩ := opens
      ⟨kind, payload, opening, rfl, opens⟩
    unfold value at read
    rw [opened] at read
    dsimp only at read
    split at read
    · rename_i isKind
      subst isKind
      cases spelled : headerText payload with
      | error error => simp [spelled, Except.map] at read
      | ok content => exact ⟨_, .simpleString spelled⟩
    · split at read
      · rename_i isKind
        subst isKind
        cases spelled : headerText payload with
        | error error => simp [spelled, Except.map] at read
        | ok content => exact ⟨_, .error spelled⟩
      · split at read
        · rename_i isKind
          subst isKind
          cases spelled : headerText payload with
          | error error => simp [spelled] at read
          | ok content =>
            cases isNumber : parseSigned i64Max content with
            | error error => simp [spelled, isNumber] at read
            | ok number => exact ⟨_, .integer spelled isNumber⟩
        · split at read
          · rename_i isKind
            subst isKind
            cases announced : headerLength payload with
            | error error => simp [bulkString, announced] at read
            | ok length => exact ⟨_, .bulkString announced⟩
          · split at read
            · rename_i isKind
              subst isKind
              cases room with
              | zero => simp at read
              | succ room =>
                cases announced : headerLength payload with
                | error error => simp [announced] at read
                | ok length => exact ⟨_, .array announced⟩
            · cases read

theorem line_header_append (oneLine : line (kind :: payload) = none) (rest : Bytes) :
    line (header kind payload ++ rest) = some (kind :: payload, rest) :=
  line_append_crlf oneLine rest

/-! ## What is regular is spelled right -/

/-- What is read as a value is spelled as that value, and what the parser asks for more of is
part of some value. -/
def Fits (room : Nat) (input : Bytes) : Option (Value × Bytes) → Prop
  | some (found, rest) => ∃ used, input = used ++ rest ∧ Spelt room found used
  | none => ∃ found more, Spelt room found (input ++ more)

/-- The same of values one after another. -/
def FitsAll (room count : Nat) (input : Bytes) : Option (List Value × Bytes) → Prop
  | some (values, rest) => ∃ used, input = used ++ rest ∧ SpeltAll room values used
  | none => ∃ values more, values.length = count ∧ SpeltAll room values (input ++ more)

/-- Any number of values can be spelled. -/
theorem exists_speltAll (room count : Nat) :
    ∃ values bytes, values.length = count ∧ SpeltAll room values bytes := by
  induction count with
  | zero => exact ⟨[], [], rfl, .nil⟩
  | succ count ih =>
    obtain ⟨values, bytes, isCount, spelled⟩ := ih
    have zero : Spelt room (.integer 0) (header 58 [48]) :=
      .alone (by decide) (.integer (show headerText [48] = .ok "0" by decide) (by decide))
    exact ⟨_, _, congrArg (· + 1) isCount, .cons zero spelled⟩

/-- Whatever a header opens can be spelled out. -/
theorem exists_spelt {opening : Opening} (oneLine : line (kind :: payload) = none)
    (opens : Header room kind payload opening) :
    ∃ found body, Spelt room found (header kind payload ++ body) := by
  cases opening with
  | value found => exact ⟨found, [], by simpa using Spelt.alone oneLine opens⟩
  | bytes length =>
    have isLength : (List.replicate length (0 : UInt8)).length = length := List.length_replicate
    exact ⟨_, _, .bulkString oneLine (isLength.symm ▸ opens)⟩
  | values inner length =>
    obtain ⟨values, body, rfl, spelled⟩ := exists_speltAll inner length
    exact ⟨_, _, .array oneLine opens spelled⟩

/-- Values are spelled one after another, or torn off, if each of them is. -/
theorem elements_fits (sound : ∀ {input outcome}, value room input = .ok outcome →
      (∀ event ∈ loose room input, event.Regular) → Fits room input outcome)
    {outcome : Option (List Value × Bytes)}
    (read : elements (value room) count input = .ok outcome)
    (regular : ∀ event ∈ looseElements (value room) (loose room) count input, event.Regular) :
    FitsAll room count input outcome := by
  induction count generalizing input outcome with
  | zero =>
    cases read
    exact ⟨[], rfl, .nil⟩
  | succ count ih =>
    rw [looseElements, List.forall_mem_append] at regular
    rcases elements_succ_eq_ok read with
      ⟨isTorn, rfl⟩ | ⟨found, after, others, isFirst, isOthers, rfl⟩
    · obtain ⟨found, more, spelled⟩ := sound isTorn regular.1
      obtain ⟨values, bytes, rfl, others⟩ := exists_speltAll room count
      exact ⟨found :: values, more ++ bytes, rfl, by
        rw [← List.append_assoc]; exact .cons spelled others⟩
    · rw [isFirst] at regular
      obtain ⟨first, rfl, isSpelled⟩ := sound isFirst regular.1
      have fits := ih isOthers regular.2
      rcases others with _ | ⟨values, last⟩
      · obtain ⟨values, more, rfl, spelled⟩ := fits
        exact ⟨found :: values, more, rfl, by
          rw [List.append_assoc]; exact .cons isSpelled spelled⟩
      · obtain ⟨used, rfl, spelled⟩ := fits
        exact ⟨first ++ used, by rw [List.append_assoc], .cons isSpelled spelled⟩

/-- A payload ended as it should be is followed by a line end. -/
theorem payload_eq (enough : length + 2 ≤ after.length)
    (ended : (after.drop length).take 2 <+: crlf) :
    after = after.take length ++ crlf ++ after.drop (length + 2) := by
  have isEnd : (after.drop length).take 2 = crlf := by
    refine ended.eq_of_length ?_
    rw [List.length_take, List.length_drop, crlf, List.length_cons, List.length_singleton]
    omega
  rw [← isEnd, List.append_assoc, ← List.drop_drop, List.take_append_drop,
    List.take_append_drop]

/-- A payload torn off is part of one, followed by a line end. -/
theorem exists_payload (short : after.length < length + 2)
    (ended : (after.drop length).take 2 <+: crlf) :
    ∃ bytes more, bytes.length = length ∧ after ++ more = bytes ++ crlf := by
  by_cases inside : after.length ≤ length
  · refine ⟨after ++ List.replicate (length - after.length) 0,
      List.replicate (length - after.length) 0 ++ crlf, ?_, by rw [List.append_assoc]⟩
    rw [List.length_append, List.length_replicate]
    omega
  · obtain ⟨more, isEnd⟩ := ended
    refine ⟨after.take length, more, List.length_take_of_le (by omega), ?_⟩
    have whole : (after.drop length).take 2 = after.drop length :=
      List.take_of_length_le (by rw [List.length_drop]; omega)
    rw [← isEnd, whole, ← List.append_assoc, List.take_append_drop]

/-- What the parser makes of an input fits how it is spelled, where nothing irregular was let
through. -/
theorem value_fits (read : value room input = .ok outcome)
    (regular : ∀ event ∈ loose room input, event.Regular) : Fits room input outcome := by
  induction room using Nat.strong_induction_on generalizing input outcome with
  | _ room ih =>
    cases opened : line input with
    | none =>
      obtain rfl : none = outcome := by simpa [value, opened] using read
      have torn : Loose.Regular (.header room input) := regular _ (by simp [loose, opened])
      obtain ⟨_, ⟨kind, payload, opening, rfl, oneLine, opens⟩, more, isHeader⟩ := torn
      obtain ⟨found, body, spelled⟩ := exists_spelt oneLine opens
      refine ⟨found, more ++ body, ?_⟩
      rw [← List.append_assoc, isHeader]
      exact spelled
    | some line =>
      obtain ⟨head, after⟩ := line
      obtain ⟨kind, payload, opening, rfl, opens⟩ := exists_header opened read
      obtain ⟨rfl, oneLine⟩ := line_eq_some opened
      rw [value_of_header opened opens] at read
      rw [loose_of_header opened opens] at regular
      cases opening with
      | value found =>
        cases read
        exact ⟨header kind payload, rfl, .alone oneLine opens⟩
      | bytes length =>
        have ended := regular_bytes.mp regular
        rw [Opening.read] at read
        split at read
        · cases read
        · split at read
          · rename_i short
            cases read
            obtain ⟨bytes, more, rfl, isPayload⟩ := exists_payload short ended
            refine ⟨.bulkString bytes, more, ?_⟩
            rw [List.append_assoc, isPayload]
            exact .bulkString oneLine opens
          · rename_i enough
            cases read
            have isAfter := payload_eq (Nat.not_lt.mp enough) ended
            have isLength : (after.take length).length = length :=
              List.length_take_of_le (by omega)
            refine ⟨header kind payload ++ (after.take length ++ crlf), ?_,
              .bulkString oneLine (isLength.symm ▸ opens)⟩
            rw [header_eq, List.append_assoc _ (_ ++ crlf), ← isAfter]
      | values inner length =>
        cases inside : elements (value inner) length after with
        | error error => simp [Opening.read, inside, Except.map] at read
        | ok within =>
          rw [Opening.read, inside] at read
          have deeper : inner < room := by cases opens; exact Nat.lt_succ_self _
          have fits := elements_fits (fun read => ih inner deeper read) inside regular
          cases read
          rcases within with _ | ⟨values, last⟩
          · obtain ⟨values, more, rfl, spelled⟩ := fits
            refine ⟨.array values, more, ?_⟩
            rw [List.append_assoc]
            exact .array oneLine opens spelled
          · obtain ⟨used, rfl, spelled⟩ := fits
            rw [← elements_length inside] at opens
            exact ⟨header kind payload ++ used, by simp [header_eq],
              .array oneLine opens spelled⟩

/-! ## What is spelled right is regular -/

/-- Values spelled one after another are read so, if each of them is. -/
theorem SpeltAll.read (each : ∀ {found bytes rest outcome}, Spelt room found bytes →
      value room (bytes ++ rest) = .ok outcome →
        outcome = some (found, rest) ∧ ∀ event ∈ loose room (bytes ++ rest), event.Regular)
    {outcome : Option (List Value × Bytes)} (spelled : SpeltAll room values bytes)
    (read : elements (value room) values.length (bytes ++ rest) = .ok outcome) :
    outcome = some (values, rest) ∧
      ∀ event ∈ looseElements (value room) (loose room) values.length (bytes ++ rest),
        event.Regular := by
  induction values generalizing bytes outcome with
  | nil =>
    cases spelled
    cases read
    exact ⟨rfl, by simp [looseElements]⟩
  | cons found values ih =>
    cases spelled with
    | cons first others =>
      rw [List.append_assoc] at read ⊢
      rw [List.length_cons, looseElements, List.forall_mem_append]
      rcases elements_succ_eq_ok read with ⟨isTorn, -⟩ | ⟨_, _, _, isFirst, isOthers, rfl⟩
      · cases (each first isTorn).1
      · obtain ⟨same, regular⟩ := each first isFirst
        cases same
        obtain ⟨rfl, regulars⟩ := ih others isOthers
        rw [isFirst]
        exact ⟨rfl, regular, regulars⟩

/-- A value spelled out is read as that value, if it is not refused, and nothing irregular
is let through. -/
theorem Spelt.read (spelled : Spelt room found bytes)
    (read : value room (bytes ++ rest) = .ok outcome) :
    outcome = some (found, rest) ∧ ∀ event ∈ loose room (bytes ++ rest), event.Regular := by
  induction room using Nat.strong_induction_on generalizing found bytes rest outcome with
  | _ room ih =>
    cases spelled with
    | alone oneLine opens =>
      have opened := line_header_append oneLine rest
      rw [value_of_header opened opens] at read
      rw [loose_of_header opened opens]
      cases read
      exact ⟨rfl, by simp [Opening.loose]⟩
    | @bulkString _ kind payload content oneLine opens =>
      rw [List.append_assoc] at read ⊢
      have opened := line_header_append oneLine (content ++ crlf ++ rest)
      rw [value_of_header opened opens, Opening.read] at read
      rw [loose_of_header opened opens, regular_bytes]
      split at read
      · cases read
      · have enough : ¬ (content ++ crlf ++ rest).length < content.length + 2 := by
          simp [crlf]
        rw [if_neg enough] at read
        cases read
        simp [crlf]
    | @array _ inner kind payload body values oneLine opens spelled =>
      rw [List.append_assoc] at read ⊢
      have opened := line_header_append oneLine (body ++ rest)
      rw [value_of_header opened opens, Opening.read] at read
      rw [loose_of_header opened opens, Opening.loose]
      have deeper : inner < room := by cases opens; exact Nat.lt_succ_self _
      cases inside : elements (value inner) values.length (body ++ rest) with
      | error error => simp [inside, Except.map] at read
      | ok within =>
        obtain ⟨rfl, regular⟩ := spelled.read (fun first => ih inner deeper first) inside
        rw [inside] at read
        cases read
        exact ⟨rfl, regular⟩

/-- An input that goes on to some bytes either breaks off in them or has them whole. -/
theorem append_split (same : input ++ more = bytes ++ body) :
    (∃ torn, torn ≠ [] ∧ bytes = input ++ torn) ∨
      ∃ after, input = bytes ++ after ∧ after ++ more = body := by
  rcases List.append_eq_append_iff.mp same with ⟨torn, isBytes, isMore⟩ | ⟨after, isInput, isBody⟩
  · by_cases nothing : torn = []
    · subst nothing
      exact .inr ⟨[], by rw [isBytes, List.append_nil, List.append_nil], isMore⟩
    · exact .inl ⟨torn, nothing, isBytes⟩
  · exact .inr ⟨after, isInput, isBody.symm⟩

/-- An input that goes on to a header either breaks off in it or has it whole. -/
theorem header_split (oneLine : line (kind :: payload) = none)
    (same : input ++ more = header kind payload ++ body) :
    (line input = none ∧ input <+: header kind payload) ∨
      ∃ after, input = header kind payload ++ after ∧ after ++ more = body := by
  refine (append_split same).imp_left ?_
  rintro ⟨torn, missing, isHeader⟩
  refine ⟨?_, torn, isHeader.symm⟩
  have isTake : input = (header kind payload).take input.length := by
    rw [isHeader, List.take_left]
  rw [isTake]
  refine line_take_crlf oneLine _ ?_
  have positive := List.length_pos_iff.mpr missing
  rw [← header_eq, isHeader, List.length_append]
  omega

/-- A header broken off is regular. -/
theorem torn_header {opening : Opening} (oneLine : line (kind :: payload) = none)
    (opens : Header room kind payload opening) (unended : line input = none)
    (isPart : input <+: header kind payload) (read : value room input = .ok outcome) :
    outcome = none ∧ ∀ event ∈ loose room input, event.Regular := by
  unfold value at read
  unfold loose
  rw [unended] at read ⊢
  cases read
  refine ⟨rfl, List.forall_mem_singleton.mpr ?_⟩
  exact ⟨kind :: payload, ⟨kind, payload, opening, rfl, oneLine, opens⟩, isPart⟩

/-- Part of values spelled out is not read through, if part of one is not. -/
theorem SpeltAll.read_part
    (each : ∀ {found input more outcome}, Spelt room found (input ++ more) → more ≠ [] →
      value room input = .ok outcome →
        outcome = none ∧ ∀ event ∈ loose room input, event.Regular)
    {outcome : Option (List Value × Bytes)} (spelled : SpeltAll room values body)
    (same : input ++ more = body) (missing : more ≠ [])
    (read : elements (value room) values.length input = .ok outcome) :
    outcome = none ∧
      ∀ event ∈ looseElements (value room) (loose room) values.length input, event.Regular := by
  induction values generalizing body input outcome with
  | nil =>
    cases spelled
    exact absurd (List.append_eq_nil_iff.mp same).2 missing
  | cons found values ih =>
    cases spelled with
    | cons first others =>
      rw [List.length_cons, looseElements, List.forall_mem_append]
      rcases append_split same with ⟨torn, missing, rfl⟩ | ⟨after, rfl, rfl⟩
      · rcases elements_succ_eq_ok read with ⟨isTorn, rfl⟩ | ⟨_, _, _, isFirst, -, -⟩
        · rw [isTorn]
          exact ⟨rfl, (each first missing isTorn).2, by simp⟩
        · cases (each first missing isFirst).1
      · rcases elements_succ_eq_ok read with ⟨isTorn, -⟩ | ⟨_, _, _, isFirst, isOthers, rfl⟩
        · cases (first.read isTorn).1
        · obtain ⟨isFound, regular⟩ := first.read isFirst
          cases isFound
          obtain ⟨rfl, regulars⟩ := ih others rfl isOthers
          rw [isFirst]
          exact ⟨rfl, regular, regulars⟩

/-- Part of a value spelled out is not read through, and nothing irregular is let
through. -/
theorem Spelt.read_part (spelled : Spelt room found (input ++ more)) (missing : more ≠ [])
    (read : value room input = .ok outcome) :
    outcome = none ∧ ∀ event ∈ loose room input, event.Regular := by
  induction room using Nat.strong_induction_on generalizing found input more outcome with
  | _ room ih =>
    generalize same : input ++ more = bytes at spelled
    cases spelled with
    | alone oneLine opens =>
      rw [← List.append_nil (header _ _)] at same
      rcases header_split oneLine same with ⟨unended, isPart⟩ | ⟨after, rfl, isRest⟩
      · exact torn_header oneLine opens unended isPart read
      · exact absurd (List.append_eq_nil_iff.mp isRest).2 missing
    | @bulkString _ kind payload content oneLine opens =>
      rcases header_split oneLine same with ⟨unended, isPart⟩ | ⟨after, rfl, isRest⟩
      · exact torn_header oneLine opens unended isPart read
      · have opened := line_header_append oneLine after
        rw [value_of_header opened opens, Opening.read] at read
        rw [loose_of_header opened opens, regular_bytes]
        have positive := List.length_pos_iff.mpr missing
        have lengths := congrArg List.length isRest
        simp only [List.length_append, crlf, List.length_cons, List.length_nil] at lengths
        split at read
        · cases read
        · rw [if_pos (by omega)] at read
          cases read
          refine ⟨rfl, (List.take_prefix _ _).trans ?_⟩
          have isPart : after <+: content ++ crlf := ⟨more, isRest⟩
          simpa using isPart.drop content.length
    | @array _ inner kind payload body values oneLine opens spelled =>
      rcases header_split oneLine same with ⟨unended, isPart⟩ | ⟨after, rfl, isRest⟩
      · exact torn_header oneLine opens unended isPart read
      · have opened := line_header_append oneLine after
        rw [value_of_header opened opens, Opening.read] at read
        rw [loose_of_header opened opens, Opening.loose]
        have deeper : inner < room := by cases opens; exact Nat.lt_succ_self _
        cases inside : elements (value inner) values.length after with
        | error error => simp [inside, Except.map] at read
        | ok within =>
          obtain ⟨rfl, regular⟩ :=
            spelled.read_part (fun first => ih inner deeper first) isRest missing inside
          rw [inside] at read
          cases read
          exact ⟨rfl, regular⟩

theorem Spelt.ne_nil (spelled : Spelt room found bytes) : bytes ≠ [] := by
  cases spelled <;> simp [header]

/-- What is read as a value is spelled as that value just when nothing irregular was let
through. -/
theorem spelt_iff_regular {used : Bytes}
    (read : value room (used ++ rest) = .ok (some (found, rest))) :
    Spelt room found used ↔ ∀ event ∈ loose room (used ++ rest), event.Regular := by
  constructor
  · exact fun spelled => (spelled.read read).2
  · intro regular
    obtain ⟨used', same, spelled⟩ := value_fits read regular
    rwa [List.append_cancel_right same]

/-! ## Logs -/

/-- Values spelled one after another, and then at most part of one. -/
def InShape (log : Bytes) : Prop :=
  ∃ values bytes tail found whole, log = bytes ++ tail ∧ SpeltAll maxDepth values bytes ∧
    Spelt maxDepth found whole ∧ tail <+: whole

theorem inShape_nil : InShape [] := by
  obtain ⟨values, bytes, isOne, spelled⟩ := exists_speltAll maxDepth 1
  cases spelled with
  | nil => cases isOne
  | cons first others => exact ⟨[], [], [], _, _, rfl, .nil, first, List.nil_prefix⟩

theorem InShape.cons {found : Value} {bytes log : Bytes} (first : Spelt maxDepth found bytes)
    (others : InShape log) : InShape (bytes ++ log) := by
  obtain ⟨values, body, tail, last, whole, rfl, spelled, isLast, isPart⟩ := others
  exact ⟨found :: values, bytes ++ body, tail, last, whole, by rw [List.append_assoc],
    .cons first spelled, isLast, isPart⟩

theorem inShape_of_regular (enough : log.length ≤ fuel)
    (read : Framing.readAll reader fuel log = .ok commands)
    (regular : ∀ event ∈ looseIn fuel log, event.Regular) : InShape log := by
  induction fuel generalizing log commands with
  | zero =>
    obtain rfl := List.length_eq_zero_iff.mp (Nat.le_zero.mp enough)
    exact inShape_nil
  | succ fuel ih =>
    cases log with
    | nil => exact inShape_nil
    | cons head tail =>
      rw [looseIn, List.forall_mem_append] at regular
      rw [Framing.readAll, reader_eq_value] at read
      split at read
      · cases read
      · rename_i isTorn
        obtain ⟨found, more, spelled⟩ := value_fits isTorn regular.1
        exact ⟨[], [], _, found, _, rfl, .nil, spelled, List.prefix_append _ _⟩
      · rename_i found rest isFound
        rw [isFound] at regular
        obtain ⟨used, isLog, spelled⟩ := value_fits isFound regular.1
        have positive := List.length_pos_iff.mpr spelled.ne_nil
        rw [isLog] at enough ⊢
        rw [List.length_append] at enough
        cases others : Framing.readAll reader fuel rest with
        | error error => simp [others, Except.map] at read
        | ok items => exact (ih (by omega) others regular.2).cons spelled

/-- A log is read through if its first value is not refused, and what follows it is read. -/
theorem readAll_succ_eq_ok {head : UInt8} {tail : Bytes}
    (read : Framing.readAll reader (fuel + 1) (head :: tail) = .ok commands) :
    value maxDepth (head :: tail) = .ok none ∨
      ∃ found rest others, value maxDepth (head :: tail) = .ok (some (found, rest)) ∧
        Framing.readAll reader fuel rest = .ok others := by
  rw [Framing.readAll, reader_eq_value] at read
  split at read
  · cases read
  · exact .inl ‹_›
  · rename_i found rest isFound
    cases others : Framing.readAll reader fuel rest with
    | error error => simp [others, Except.map] at read
    | ok items => exact .inr ⟨found, rest, items, isFound, others⟩

/-- What is let through in a log that is a value and what follows it. -/
theorem regular_cons {head : UInt8} {tail : Bytes} (isLog : head :: tail = bytes ++ rest)
    (read : Framing.readAll reader (fuel + 1) (head :: tail) = .ok commands)
    (spelled : Spelt maxDepth found bytes)
    (others : ∀ {items}, Framing.readAll reader fuel rest = .ok items →
      ∀ event ∈ looseIn fuel rest, event.Regular) :
    ∀ event ∈ looseIn (fuel + 1) (head :: tail), event.Regular := by
  rw [looseIn, List.forall_mem_append]
  rcases readAll_succ_eq_ok read with isTorn | ⟨_, _, _, isFound, isRead⟩
  · rw [isLog] at isTorn
    cases (spelled.read isTorn).1
  · rw [isLog] at isFound ⊢
    obtain ⟨same, regular⟩ := spelled.read isFound
    cases same
    rw [isFound]
    exact ⟨regular, others isRead⟩

theorem regular_of_inShape (read : Framing.readAll reader fuel log = .ok commands)
    (inShape : InShape log) :
    ∀ event ∈ looseIn fuel log, event.Regular := by
  induction fuel generalizing log commands with
  | zero => simp [looseIn]
  | succ fuel ih =>
    cases log with
    | nil => simp [looseIn]
    | cons head tail =>
      obtain ⟨values, bytes, last, found, whole, isLog, spelled, isLast, more, isWhole⟩ := inShape
      cases spelled with
      | cons first others =>
        rw [List.append_assoc] at isLog
        exact regular_cons isLog read first fun isRead =>
          ih isRead ⟨_, _, last, found, whole, rfl, others, isLast, more, isWhole⟩
      | nil =>
        obtain rfl : head :: tail = last := isLog
        by_cases whole_ : more = []
        · rw [whole_, List.append_nil, ← List.append_nil whole] at isWhole
          refine regular_cons isWhole read isLast fun _ => ?_
          cases fuel <;> simp [looseIn]
        · rw [looseIn, List.forall_mem_append]
          rw [← isWhole] at isLast
          rcases readAll_succ_eq_ok read with isTorn | ⟨_, _, _, isFound, -⟩
          · rw [isTorn]
            exact ⟨(isLast.read_part whole_ isTorn).2, by simp⟩
          · cases (isLast.read_part whole_ isFound).1

/-- A log that is read through is in shape just when nothing irregular was let through. -/
theorem inShape_iff_regular (read : Aof.recorded log = .ok commands) :
    InShape log ↔ ∀ event ∈ looseIn log.length log, event.Regular :=
  ⟨regular_of_inShape read, inShape_of_regular le_rfl read⟩

theorem parse_eq_some {taken : Nat} (read : parse input = .ok (some (found, taken))) :
    ∃ used rest, input = used ++ rest ∧ taken = used.length ∧ 0 < taken ∧
      value maxDepth (used ++ rest) = .ok (some (found, rest)) := by
  rw [parse] at read
  cases isRead : value maxDepth input with
  | error error => simp [isRead, Except.map] at read
  | ok outcome =>
    rw [isRead] at read
    cases outcome with
    | none => cases read
    | some pair =>
      obtain ⟨found', rest⟩ := pair
      cases read
      have shorter := reader_stable.shorter ((reader_eq_value input).trans isRead)
      obtain ⟨used, rfl⟩ := value_suffix isRead
      have isTaken : (used ++ rest).length - rest.length = used.length := by
        rw [List.length_append, Nat.add_sub_cancel]
      refine ⟨used, rest, rfl, isTaken, ?_, isRead⟩
      exact Nat.sub_pos_of_lt shorter

/-- The parser accepts nothing but values spelled out, and a log is read through only if it
is in shape, just when what they pass over is what it should be: a line end after a payload,
and the beginning of a header where the log breaks off in one. -/
theorem accepts_spelt_iff (input : Bytes) :
    ((∀ found taken, parse input = .ok (some (found, taken)) →
        0 < taken ∧ taken ≤ input.length ∧ Spelt maxDepth found (input.take taken)) ↔
      ∀ found taken, parse input = .ok (some (found, taken)) →
        ∀ event ∈ loose maxDepth input, event.Regular) ∧
    ((∀ commands, Aof.recorded input = .ok commands → InShape input) ↔
      ∀ commands, Aof.recorded input = .ok commands →
        ∀ event ∈ looseIn input.length input, event.Regular) := by
  refine ⟨forall₂_congr fun found taken => forall_congr' fun read => ?_,
    forall_congr' fun commands => forall_congr' fun read => inShape_iff_regular read⟩
  obtain ⟨used, rest, rfl, rfl, positive, isRead⟩ := parse_eq_some read
  rw [List.take_left, ← spelt_iff_regular isRead, List.length_append]
  exact ⟨fun accepted => accepted.2.2, fun spelled => ⟨positive, by omega, spelled⟩⟩

/-- `abc` is read out of a payload that `XY` follows, and a log of one byte that opens no
value is read through. -/
theorem unspelt_accepted :
    parse [36, 51, 13, 10, 97, 98, 99, 88, 89] = .ok (some (.bulkString [97, 98, 99], 9)) ∧
      ¬ Spelt maxDepth (.bulkString [97, 98, 99]) [36, 51, 13, 10, 97, 98, 99, 88, 89] ∧
        Aof.recorded [64] = .ok [] ∧ ¬ InShape [64] := by
  refine ⟨rfl, fun spelled => ?_, rfl, fun inShape => ?_⟩
  · have read : value maxDepth ([36, 51, 13, 10, 97, 98, 99, 88, 89] ++ []) =
        .ok (some (.bulkString [97, 98, 99], [])) := rfl
    have ended : Loose.Regular (.ending [88, 89]) :=
      (spelt_iff_regular read).mp spelled _ (by decide)
    rw [Loose.Regular] at ended
    exact absurd ended (by decide)
  · obtain ⟨_, ⟨kind, payload, opening, rfl, -, opens⟩, isPart⟩ : Loose.Regular (.header 8 [64]) :=
      (inShape_iff_regular (show Aof.recorded [64] = .ok [] from rfl)).mp inShape _ (by decide)
    obtain rfl : 64 = kind := by simpa using isPart
    cases opens

end RedisServer
