import RedisServer.Text
import RedisServer.Lib.Framing

/-!
# The Redis serialization protocol

Values are laid out by `Value.encode` and read back by `parse`.  The parser is
given all the bytes there are so far and answers with a value and the number of
bytes it took up, with nothing when the bytes hold only part of a value, or
with an error.

Commands are arrays of bulk strings.  For these, encoding is undone by parsing
at every cut, which is what the framing library asks of a reader.
-/

namespace RedisServer

variable {input rest content : Bytes} {room count : Nat}

/-- A value in the Redis serialization protocol. -/
inductive Value where
  | simpleString (text : String)
  | error (message : String)
  | integer (number : Int)
  | bulkString (bytes : Bytes)
  | array (values : List Value)
  | null
  | nullArray
  | file (bytes : Bytes)
  | sequence (values : List Value)

namespace Value

/-- Whether a reply says that the command failed. -/
def isError : Value → Bool
  | .error _ => true
  | _ => false

end Value

/-- The end of a line. -/
def crlf : Bytes := [13, 10]

/-- A type byte, its text and the end of the line. -/
def header (kind : UInt8) (payload : Bytes) : Bytes := kind :: payload ++ crlf

mutual
/-- Lays a value out as it goes over the wire. -/
def Value.encode : Value → Bytes
  | .simpleString text => header 43 (utf8 text)
  | .error message => header 45 (utf8 message)
  | .integer number => header 58 (utf8 (toString number))
  | .bulkString bytes => header 36 (decimal bytes.length) ++ bytes ++ crlf
  | .array values => header 42 (decimal values.length) ++ encodeAll values
  | .null => header 36 (utf8 "-1")
  | .nullArray => header 42 (utf8 "-1")
  | .file bytes => header 36 (decimal bytes.length) ++ bytes
  | .sequence values => encodeAll values

/-- Values one after another. -/
def encodeAll : List Value → Bytes
  | [] => []
  | value :: values => value.encode ++ encodeAll values
end

theorem encodeAll_eq_flatMap (values : List Value) :
    encodeAll values = values.flatMap Value.encode := by
  induction values with
  | nil => rfl
  | cons value values ih => simp [encodeAll, ih]

/-- The largest bulk string Redis accepts. -/
def maxBulkLength : Nat := 512 * 1024 * 1024

/-- How deeply values may nest before the input is taken as nonsense. -/
def maxDepth : Nat := 8

/-- Why bytes are no value at all. -/
inductive ParseError where
  | emptyFrame
  | unknownType (kind : UInt8)
  | notText
  | notInteger (error : IntError)
  | bulkLength
  | tooDeep
  deriving DecidableEq, Repr

/-- What reading from the front of the input comes to: a value and the input
past it, nothing when the input ends too soon, or an error. -/
abbrev Parsed (α : Type) := Except ParseError (Option (α × Bytes))

/-- Consumes up to the next CRLF, returning the bytes before it. -/
def line : Bytes → Option (Bytes × Bytes)
  | [] => none
  | [_] => none
  | first :: second :: rest =>
    if first = 13 ∧ second = 10 then some ([], rest)
    else (line (second :: rest)).map fun found => (first :: found.1, found.2)

/-- The text of a header. -/
def headerText (payload : Bytes) : Except ParseError String :=
  match text payload with
  | some content => .ok content
  | none => .error .notText

/-- The length a header announces. -/
def headerLength (payload : Bytes) : Except ParseError Nat :=
  match headerText payload with
  | .error error => .error error
  | .ok content =>
    match parseUnsigned usizeMax content with
    | .ok length => .ok length
    | .error error => .error (.notInteger error)

/-- The payload of a bulk string, the length of which has just been read.  The
two bytes after it are passed over unread. -/
def bulkString (payload rest : Bytes) : Parsed Value :=
  match headerLength payload with
  | .error error => .error error
  | .ok length =>
    if maxBulkLength < length then .error .bulkLength
    else if rest.length < length + 2 then .ok none
    else .ok (some (.bulkString (rest.take length), rest.drop (length + 2)))

/-- Reads the given number of values, one after another. -/
def elements (read : Bytes → Parsed Value) : Nat → Bytes → Parsed (List Value)
  | 0, rest => .ok (some ([], rest))
  | count + 1, rest =>
    match read rest with
    | .error error => .error error
    | .ok none => .ok none
    | .ok (some (value, rest)) =>
      match elements read count rest with
      | .error error => .error error
      | .ok none => .ok none
      | .ok (some (values, rest)) => .ok (some (value :: values, rest))

/-- Reads one value.  `room` is how many arrays may still be entered: the
deepest nesting allowed, less the depth the value is found at. -/
def value (room : Nat) (input : Bytes) : Parsed Value :=
  match line input with
  | none => .ok none
  | some ([], _) => .error .emptyFrame
  | some (kind :: payload, rest) =>
    if kind = 43 then
      (headerText payload).map fun content => some (.simpleString content, rest)
    else if kind = 45 then
      (headerText payload).map fun content => some (.error content, rest)
    else if kind = 58 then
      match headerText payload with
      | .error error => .error error
      | .ok content =>
        match parseSigned i64Max content with
        | .ok number => .ok (some (.integer number, rest))
        | .error error => .error (.notInteger error)
    else if kind = 36 then bulkString payload rest
    else if kind = 42 then
      match room with
      | 0 => .error .tooDeep
      | room + 1 =>
        match headerLength payload with
        | .error error => .error error
        | .ok length =>
          (elements (value room) length rest).map
            (Option.map fun found => (.array found.1, found.2))
    else .error (.unknownType kind)

/-- Parses the value at the start of the input, returning it together with the
number of bytes it occupied. -/
def parse (input : Bytes) : Except ParseError (Option (Value × Nat)) :=
  (value maxDepth input).map
    (Option.map fun found => (found.1, input.length - found.2.length))

/-! ## Lines -/

theorem line_eq_none_of_append {first second : Bytes}
    (none_found : line (first ++ second) = none) : line first = none := by
  induction first with
  | nil => rfl
  | cons byte first ih =>
    cases first with
    | nil => rfl
    | cons next first =>
      simp only [List.cons_append, line] at none_found ⊢
      split at none_found
      · simp at none_found
      · rename_i unequal
        rw [if_neg unequal]
        simp only [Option.map_eq_none_iff] at none_found ⊢
        exact ih none_found

/-- Bytes holding no CRLF are a line once one follows them. -/
theorem line_append_crlf (none_found : line content = none) (rest : Bytes) :
    line (content ++ crlf ++ rest) = some (content, rest) := by
  induction content with
  | nil => simp [crlf, line]
  | cons byte content ih =>
    cases content with
    | nil => simp [crlf, line]
    | cons next content =>
      simp only [line] at none_found
      split at none_found
      · simp at none_found
      · rename_i unequal
        have tail := ih (by simpa using none_found)
        simp only [List.cons_append] at tail ⊢
        simp only [line, if_neg unequal, tail, Option.map_some]

/-- A line is not ended by what follows it, unless that starts with the second
byte of a line end. -/
theorem line_append_eq_none {first second : Bytes} (noneFirst : line first = none)
    (noneSecond : line second = none) (start : second.head? ≠ some 10) :
    line (first ++ second) = none := by
  induction first with
  | nil => exact noneSecond
  | cons byte first ih =>
    cases first with
    | nil =>
      cases second with
      | nil => rfl
      | cons next second =>
        simp only [List.head?_cons, ne_eq, Option.some.injEq] at start
        simp [line, start, noneSecond]
    | cons next first =>
      simp only [line] at noneFirst
      split at noneFirst
      · cases noneFirst
      · rename_i noEnd
        have tail : line (next :: first) = none := by
          simpa using noneFirst
        have whole := ih tail
        simp only [List.cons_append] at whole ⊢
        simp [line, noEnd, whole]

/-- Until its CRLF is whole, a line is not there. -/
theorem line_take_crlf (none_found : line content = none) (cut : Nat)
    (short : cut < (content ++ crlf).length) :
    line ((content ++ crlf).take cut) = none := by
  have before_last : line (content ++ [13]) = none := line_append_eq_none none_found rfl (by simp)
  have cut_eq : (content ++ crlf).take cut = (content ++ [13]).take cut := by
    have spelled : content ++ crlf = (content ++ [13]) ++ [10] := by simp [crlf]
    rw [spelled, List.take_append_of_le_length]
    simp [crlf] at short ⊢
    omega
  rw [cut_eq]
  rw [← List.take_append_drop cut (content ++ [13])] at before_last
  exact line_eq_none_of_append before_last

theorem line_eq_none_of_no_cr (no_cr : ∀ byte ∈ content, byte ≠ 13) : line content = none := by
  induction content with
  | nil => rfl
  | cons byte content ih =>
    cases content with
    | nil => rfl
    | cons next content =>
      simp only [line]
      rw [if_neg fun found => no_cr byte (by simp) found.1,
        ih fun other member => no_cr other (by simp [member])]
      rfl

theorem line_numbered_eq_none {kind : UInt8} (kind_ne : kind ≠ 13) (number : Nat) :
    line (kind :: decimal number) = none := by
  apply line_eq_none_of_no_cr
  intro byte member equal
  rcases List.mem_cons.mp member with rfl | member
  · exact kind_ne equal
  · have digit := digit_of_mem_decimal member
    subst equal
    exact absurd digit.1 (by decide)

theorem header_eq (kind : UInt8) (payload : Bytes) :
    header kind payload = (kind :: payload) ++ crlf := rfl

/-- A header announcing a number is read up to its end. -/
theorem line_numbered (kind : UInt8) (kind_ne : kind ≠ 13) (number : Nat)
    (rest : Bytes) :
    line (header kind (decimal number) ++ rest) =
      some (kind :: decimal number, rest) :=
  line_append_crlf (line_numbered_eq_none kind_ne number) rest

theorem line_numbered_part {kind : UInt8} (kind_ne : kind ≠ 13) (number cut : Nat)
    (short : cut < (header kind (decimal number)).length) :
    line ((header kind (decimal number)).take cut) = none :=
  line_take_crlf (line_numbered_eq_none kind_ne number) cut short

theorem headerLength_decimal {number : Nat} (fits : number ≤ usizeMax) :
    headerLength (decimal number) = .ok number := by
  simp only [headerLength, headerText, text_decimal, parseUnsigned_toString fits]

/-! ## What a value was read from -/

/-- How a value came to be read: the header it opens with, and what the type
byte made of the rest. -/
theorem value_eq_some {found : Value} (read : value room input = .ok (some (found, rest))) :
    ∃ kind payload after, line input = some (kind :: payload, after) ∧
      ((∃ content, kind = 43 ∧ headerText payload = .ok content ∧
          found = .simpleString content ∧ rest = after) ∨
        (∃ content, kind = 45 ∧ headerText payload = .ok content ∧
          found = .error content ∧ rest = after) ∨
        (∃ content number, kind = 58 ∧ headerText payload = .ok content ∧
          parseSigned i64Max content = .ok number ∧
          found = .integer number ∧ rest = after) ∨
        (∃ length, kind = 36 ∧ headerLength payload = .ok length ∧
          length ≤ maxBulkLength ∧ length + 2 ≤ after.length ∧
          found = .bulkString (after.take length) ∧
          rest = after.drop (length + 2)) ∨
        (∃ inner length values, kind = 42 ∧ room = inner + 1 ∧
          headerLength payload = .ok length ∧
          elements (value inner) length after = .ok (some (values, rest)) ∧
          found = .array values)) := by
  unfold value at read
  split at read
  · cases read
  · cases read
  · rename_i kind payload after opened
    refine ⟨kind, payload, after, opened, ?_⟩
    split at read
    · rename_i isKind
      cases spelled : headerText payload with
      | error error => simp [spelled, Except.map] at read
      | ok content =>
        rw [spelled] at read
        cases read
        exact .inl ⟨content, isKind, rfl, rfl, rfl⟩
    · split at read
      · rename_i isKind
        cases spelled : headerText payload with
        | error error => simp [spelled, Except.map] at read
        | ok content =>
          rw [spelled] at read
          cases read
          exact .inr (.inl ⟨content, isKind, rfl, rfl, rfl⟩)
      · split at read
        · rename_i isKind
          split at read
          · cases read
          · rename_i content spelled
            split at read
            · rename_i number parsed
              cases read
              exact .inr (.inr (.inl ⟨content, number, isKind, spelled, parsed, rfl, rfl⟩))
            · cases read
        · split at read
          · rename_i isKind
            simp only [bulkString] at read
            split at read
            · cases read
            · rename_i length announced
              split at read
              · cases read
              · rename_i small
                split at read
                · cases read
                · rename_i enough
                  cases read
                  exact .inr (.inr (.inr (.inl ⟨length, isKind, announced,
                    by omega, by omega, rfl, rfl⟩)))
          · split at read
            · rename_i isKind
              split at read
              · cases read
              · rename_i inner
                split at read
                · cases read
                · rename_i length announced
                  cases inside : elements (value inner) length after with
                  | error error => simp [inside, Except.map] at read
                  | ok result =>
                    rw [inside] at read
                    rcases result with _ | ⟨values, last⟩
                    · cases read
                    · cases read
                      exact .inr (.inr (.inr (.inr ⟨inner, length, values,
                        isKind, rfl, announced, inside, rfl⟩)))
            · cases read

/-- The parser comes to something on values if it does on the first, and then on the rest. -/
theorem elements_succ_eq_ok {read : Bytes → Parsed Value} {outcome : Option (List Value × Bytes)}
    (found : elements read (count + 1) input = .ok outcome) :
    (read input = .ok none ∧ outcome = none) ∨
      ∃ first after others, read input = .ok (some (first, after)) ∧
        elements read count after = .ok others ∧
          outcome = others.map fun rest => (first :: rest.1, rest.2) := by
  unfold elements at found
  split at found
  · cases found
  · rename_i isTorn
    cases found
    exact .inl ⟨isTorn, rfl⟩
  · rename_i first after isFirst
    split at found
    · cases found
    · rename_i isTorn
      cases found
      exact .inr ⟨first, after, none, isFirst, isTorn, rfl⟩
    · rename_i others last isOthers
      cases found
      exact .inr ⟨first, after, _, isFirst, isOthers, rfl⟩

theorem elements_succ_eq_some {read : Bytes → Parsed Value} {values : List Value}
    (found : elements read (count + 1) input = .ok (some (values, rest))) :
    ∃ first after others, read input = .ok (some (first, after)) ∧
      elements read count after = .ok (some (others, rest)) ∧ values = first :: others := by
  rcases elements_succ_eq_ok found with ⟨-, isNone⟩ |
    ⟨first, after, _ | ⟨others, last⟩, isFirst, isOthers, same⟩
  · cases isNone
  · cases same
  · cases same
    exact ⟨first, after, others, isFirst, isOthers, rfl⟩

theorem elements_length {read : Bytes → Parsed Value} {values : List Value}
    (found : elements read count input = .ok (some (values, rest))) :
    values.length = count := by
  induction count generalizing input values with
  | zero =>
    cases found
    rfl
  | succ count ih =>
    obtain ⟨first, after, others, -, isOthers, rfl⟩ := elements_succ_eq_some found
    rw [List.length_cons, ih isOthers]

/-! ## What is read lies at the front of the input -/

theorem headerLength_le {payload : Bytes} {length : Nat}
    (announced : headerLength payload = .ok length) : length ≤ usizeMax := by
  unfold headerLength at announced
  split at announced
  · cases announced
  · split at announced
    · cases announced
      exact parseUnsigned_le ‹_›
    · cases announced

/-- Each of the values read one after another was read on its own. -/
theorem exists_read_of_elements {read : Bytes → Parsed Value} {values : List Value}
    (found : elements read count input = .ok (some (values, rest))) :
    ∀ inner ∈ values, ∃ before after, read before = .ok (some (inner, after)) := by
  induction count generalizing input values with
  | zero =>
    cases found
    simp
  | succ count ih =>
    obtain ⟨first, after, others, isFirst, isOthers, rfl⟩ := elements_succ_eq_some found
    exact List.forall_mem_cons.mpr ⟨⟨_, _, isFirst⟩, ih isOthers⟩

theorem bulkString_le {bytes : Bytes}
    (read : value room input = .ok (some (.bulkString bytes, rest))) :
    bytes.length ≤ maxBulkLength := by
  obtain ⟨kind, payload, after, -, cases⟩ := value_eq_some read
  obtain ⟨length, -, -, small, -, isTaken, -⟩ : ∃ length, kind = 36 ∧
      headerLength payload = .ok length ∧ length ≤ maxBulkLength ∧
      length + 2 ≤ after.length ∧ Value.bulkString bytes = .bulkString (after.take length) ∧
      rest = after.drop (length + 2) := by
    simpa using cases
  rw [Value.bulkString.inj isTaken]
  exact (List.length_take_le _ _).trans small

/-- A line is what stands before the first line end. -/
theorem line_eq_some {head : Bytes} (opened : line input = some (head, rest)) :
    input = head ++ crlf ++ rest ∧ line head = none := by
  induction input generalizing head with
  | nil => cases opened
  | cons byte input ih =>
    cases input with
    | nil => cases opened
    | cons next input =>
      rw [line] at opened
      split at opened
      · rename_i isEnd
        obtain ⟨rfl, rfl⟩ := isEnd
        cases opened
        exact ⟨rfl, rfl⟩
      · rename_i noEnd
        obtain ⟨⟨tail, after⟩, tailRead, isFound⟩ := Option.map_eq_some_iff.mp opened
        cases isFound
        obtain ⟨isInput, noLine⟩ := ih tailRead
        refine ⟨by rw [isInput]; rfl, ?_⟩
        cases tail with
        | nil => rfl
        | cons second tail =>
          obtain rfl : next = second := by simpa using congrArg List.head? isInput
          rw [line, if_neg noEnd, noLine]
          rfl

theorem line_suffix {found : Bytes} (read : line input = some (found, rest)) : rest <:+ input := by
  rw [(line_eq_some read).1]
  exact List.suffix_append _ _

theorem elements_suffix {read : Bytes → Parsed Value}
    (suffix : ∀ input value rest, read input = .ok (some (value, rest)) →
      rest <:+ input) {values : List Value}
    (found : elements read count input = .ok (some (values, rest))) :
    rest <:+ input := by
  induction count generalizing input values with
  | zero =>
    cases found
    exact List.suffix_rfl
  | succ count ih =>
    obtain ⟨first, after, others, isFirst, isOthers, rfl⟩ := elements_succ_eq_some found
    exact (ih isOthers).trans (suffix _ _ _ isFirst)

/-- Reading a value leaves an end part of the input. -/
theorem value_suffix {found : Value} (read : value room input = .ok (some (found, rest))) :
    rest <:+ input := by
  induction room using Nat.strong_induction_on generalizing input found rest with
  | _ room ih =>
    obtain ⟨kind, payload, after, opened, cases⟩ := value_eq_some read
    have opening := line_suffix opened
    rcases cases with ⟨_, _, _, _, rfl⟩ | ⟨_, _, _, _, rfl⟩ | ⟨_, _, _, _, _, _, rfl⟩ |
      ⟨length, _, _, _, _, _, rfl⟩ | ⟨inner, length, values, _, rfl, _, inside, _⟩
    · exact opening
    · exact opening
    · exact opening
    · exact (List.drop_suffix _ _).trans opening
    · refine (elements_suffix ?_ inside).trans opening
      intro input value rest read
      exact ih inner (Nat.lt_succ_self inner) read

/-- The reader of the framing library that `parse` makes: the value at the
front and the input past the bytes it took up. -/
def reader : Framing.Reader UInt8 Value ParseError := fun input =>
  (parse input).map (Option.map fun found => (found.1, input.drop found.2))

theorem reader_eq_value (input : Bytes) : reader input = value maxDepth input := by
  simp only [reader, parse]
  cases read : value maxDepth input with
  | error error => rfl
  | ok result =>
    cases result with
    | none => rfl
    | some pair =>
      obtain ⟨found, rest⟩ := pair
      obtain ⟨used, rfl⟩ := value_suffix read
      simp [Except.map]

/-! ## Encoding is undone by parsing, at every cut -/

theorem delimits_bulkString (room : Nat) {bytes : Bytes}
    (small : bytes.length ≤ maxBulkLength) :
    Framing.Delimits (value room) Value.encode (.bulkString bytes) := by
  have fits : bytes.length ≤ usizeMax := small.trans (by decide)
  have encoded : (Value.bulkString bytes).encode =
      header 36 (decimal bytes.length) ++ (bytes ++ crlf) := by
    simp [Value.encode]
  refine ⟨?_, ?_, ?_⟩
  · simp [Value.encode, header]
  · intro rest
    rw [encoded, List.append_assoc]
    simp only [value, line_numbered 36 (by decide)]
    have enough : ¬ (bytes ++ crlf ++ rest).length < bytes.length + 2 := by
      simp [crlf]
    have notLarge : ¬ maxBulkLength < bytes.length := by omega
    simp only [bulkString, headerLength_decimal fits, if_neg notLarge, if_neg enough]
    simp [crlf]
  · intro cut short
    rw [encoded] at short ⊢
    by_cases inHeader : cut < (header 36 (decimal bytes.length)).length
    · rw [List.take_append_of_le_length inHeader.le]
      simp only [value, line_numbered_part (by decide) _ _ inHeader]
    · rw [List.take_append, List.take_of_length_le (by omega)]
      simp only [value, line_numbered 36 (by decide)]
      have tooShort : ((bytes ++ crlf).take
          (cut - (header 36 (decimal bytes.length)).length)).length <
            bytes.length + 2 := by
        simp only [List.length_append] at short
        simp only [List.length_take, List.length_append]
        simp only [crlf, List.length_cons, List.length_nil] at short ⊢
        omega
      have notLarge : ¬ maxBulkLength < bytes.length := by omega
      simp only [bulkString, headerLength_decimal fits, if_neg notLarge, if_pos tooShort]
      simp

/-- A run of values is read one after another. -/
theorem elements_whole {read : Bytes → Parsed Value} {values : List Value}
    (delimits : ∀ value ∈ values, Framing.Delimits read Value.encode value)
    (rest : Bytes) :
    elements read values.length (encodeAll values ++ rest) =
      .ok (some (values, rest)) := by
  induction values with
  | nil => rfl
  | cons value values ih =>
    have first := (delimits value (by simp)).whole (encodeAll values ++ rest)
    have others := ih fun other member => delimits other (by simp [member])
    simp only [encodeAll, List.append_assoc, List.length_cons, elements, first, others]

/-- A run of values cut off asks for more. -/
theorem elements_part {read : Bytes → Parsed Value} {values : List Value}
    (delimits : ∀ value ∈ values, Framing.Delimits read Value.encode value)
    (cut : Nat) (short : cut < (encodeAll values).length) :
    elements read values.length ((encodeAll values).take cut) = .ok none := by
  induction values generalizing cut with
  | nil => simp [encodeAll] at short
  | cons value values ih =>
    have here := delimits value (by simp)
    simp only [encodeAll, List.length_append] at short
    simp only [encodeAll, List.length_cons, elements]
    by_cases inFirst : cut < value.encode.length
    · rw [List.take_append_of_le_length inFirst.le]
      simp only [here.part cut inFirst]
    · rw [List.take_append, List.take_of_length_le (by omega)]
      simp only [here.whole]
      rw [ih (fun other member => delimits other (by simp [member])) _ (by omega)]

theorem delimits_array {room : Nat} {values : List Value}
    (fits : values.length ≤ usizeMax)
    (delimits : ∀ inner ∈ values,
      Framing.Delimits (value room) Value.encode inner) :
    Framing.Delimits (value (room + 1)) Value.encode (.array values) := by
  refine ⟨?_, ?_, ?_⟩
  · simp [Value.encode, header]
  · intro rest
    rw [Value.encode, List.append_assoc]
    rw [value]
    simp only [line_numbered 42 (by decide), headerLength_decimal fits,
      elements_whole delimits]
    rfl
  · intro cut short
    simp only [Value.encode, List.length_append] at short ⊢
    by_cases inHeader : cut < (header 42 (decimal values.length)).length
    · rw [List.take_append_of_le_length inHeader.le]
      simp only [value, line_numbered_part (by decide) _ _ inHeader]
    · rw [List.take_append, List.take_of_length_le (by omega)]
      rw [value]
      simp only [line_numbered 42 (by decide), headerLength_decimal fits]
      rw [elements_part delimits _ (by omega)]
      rfl

end RedisServer
