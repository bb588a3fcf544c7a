import RedisServer.Resp

/-!
# What the parser makes of an encoded value

The parser reads back what a server or a client lays out: simple strings and errors
of one line, integers, bulk strings and arrays of these, as long as the arrays do
not nest too deeply.  Whatever part of such a value has arrived, it waits for the
rest; a value nested too deeply it turns down.
-/

namespace RedisServer

/-- No line ends within these bytes. -/
def OneLine (bytes : Bytes) : Prop := ¬ crlf <:+: bytes

theorem line_eq_none_of_oneLine {bytes : Bytes} (oneLine : OneLine bytes) :
    line bytes = none := by
  induction bytes with
  | nil => rfl
  | cons byte bytes ih =>
    have rest := ih fun found => oneLine (found.trans (List.suffix_cons byte bytes).isInfix)
    cases bytes with
    | nil => rfl
    | cons next bytes =>
      have noEnd : ¬ (byte = 13 ∧ next = 10) := by
        rintro ⟨rfl, rfl⟩
        exact oneLine (List.prefix_append [13, 10] bytes).isInfix
      simp only [line, if_neg noEnd, rest, Option.map_none]

theorem oneLine_of_line_eq_none {bytes : Bytes} (noLine : line bytes = none) :
    OneLine bytes := by
  rintro ⟨before, after, rfl⟩
  have found : line (crlf ++ after) = some ([], after) := by simp [crlf, line]
  rw [List.append_assoc] at noLine
  induction before with
  | nil => simp [found] at noLine
  | cons byte before ih =>
    refine ih ?_
    cases tail : before ++ (crlf ++ after) with
    | nil => rfl
    | cons next bytes =>
      simp only [List.cons_append, tail, line] at noLine
      split at noLine
      · cases noLine
      · simpa using noLine

mutual
/-- How many arrays deep a value nests. -/
def Value.depth : Value → Nat
  | .array values => depthAll values + 1
  | _ => 0

def depthAll : List Value → Nat
  | [] => 0
  | found :: values => max found.depth (depthAll values)
end

mutual
/-- The values that go over the wire and come back: the numbers are those of their
machine types, a line is one line, and a bulk string is one Redis accepts. -/
def Value.Readable : Value → Prop
  | .simpleString text => OneLine (utf8 text)
  | .error message => OneLine (utf8 message)
  | .integer number => -(i64Max : Int) - 1 ≤ number ∧ number ≤ i64Max
  | .bulkString bytes => bytes.length ≤ maxBulkLength
  | .array values => values.length ≤ usizeMax ∧ ReadableAll values
  | _ => False

def ReadableAll : List Value → Prop
  | [] => True
  | found :: values => found.Readable ∧ ReadableAll values
end

/-! ## Lines -/

/-- A value that is one line, read by what `made` makes of its text. -/
theorem delimits_line {room : Nat} {kind : UInt8} {payload : Bytes} {found : Value}
    (spelled : found.encode = header kind payload) (oneLine : line (kind :: payload) = none)
    (made : ∀ input rest, line input = some (kind :: payload, rest) →
      value room input = .ok (some (found, rest))) :
    Framing.Delimits (value room) Value.encode found := by
  refine ⟨?_, ?_, ?_⟩
  · simp [spelled, header]
  · intro rest
    rw [spelled]
    exact made _ rest (line_append_crlf oneLine rest)
  · intro cut short
    rw [spelled] at short ⊢
    have noLine : line ((header kind payload).take cut) = none :=
      line_take_crlf oneLine cut short
    rw [value, noLine]

theorem line_kind_eq_none {kind : UInt8} {payload : Bytes} (notReturn : kind ≠ 13)
    (oneLine : OneLine payload) : line (kind :: payload) = none := by
  have rest := line_eq_none_of_oneLine oneLine
  cases payload with
  | nil => rfl
  | cons next payload =>
    rw [line, if_neg fun found => notReturn found.1, rest]
    rfl

theorem oneLine_toString (number : Int) : OneLine (utf8 (toString number)) := by
  rintro ⟨before, after, spelled⟩
  exact @ne_return_of_mem_toString number _ (by rw [← spelled]; simp [crlf]) rfl

theorem headerText_utf8 (content : String) : headerText (utf8 content) = .ok content := by
  simp [headerText]

theorem delimits_simpleString (room : Nat) {content : String}
    (oneLine : OneLine (utf8 content)) :
    Framing.Delimits (value room) Value.encode (.simpleString content) := by
  apply delimits_line rfl (line_kind_eq_none (by decide) oneLine)
  intro input rest opened
  rw [value, opened]
  simp [headerText_utf8, Except.map]

theorem delimits_error (room : Nat) {message : String} (oneLine : OneLine (utf8 message)) :
    Framing.Delimits (value room) Value.encode (.error message) := by
  apply delimits_line rfl (line_kind_eq_none (by decide) oneLine)
  intro input rest opened
  rw [value, opened]
  simp [headerText_utf8, Except.map]

theorem delimits_integer (room : Nat) {number : Int} (low : -(i64Max : Int) - 1 ≤ number)
    (high : number ≤ i64Max) :
    Framing.Delimits (value room) Value.encode (.integer number) := by
  apply delimits_line rfl (line_kind_eq_none (by decide) (oneLine_toString number))
  intro input rest opened
  rw [value, opened]
  simp only [headerText_utf8, parseSigned_toString low high]
  rfl

/-! ## Any value -/

mutual
/-- A value that does not nest too deeply is read back, at every cut. -/
theorem Value.Readable.delimits : ∀ (found : Value) (room : Nat), found.Readable →
    found.depth ≤ room → Framing.Delimits (value room) Value.encode found
  | .simpleString _, room, oneLine, _ => delimits_simpleString room oneLine
  | .error _, room, oneLine, _ => delimits_error room oneLine
  | .integer _, room, fits, _ => delimits_integer room fits.1 fits.2
  | .bulkString _, room, small, _ => delimits_bulkString room small
  | .array values, room + 1, readable, shallow =>
    delimits_array readable.1 (ReadableAll.delimits values room readable.2
      (Nat.le_of_succ_le_succ shallow))

theorem ReadableAll.delimits : ∀ (values : List Value) (room : Nat), ReadableAll values →
    depthAll values ≤ room → ∀ inner ∈ values, Framing.Delimits (value room) Value.encode inner
  | [], _, _, _ => fun _ member => nomatch member
  | found :: values, room, readable, shallow =>
    List.forall_mem_cons.mpr
      ⟨Value.Readable.delimits found room readable.1 ((Nat.le_max_left _ _).trans shallow),
        ReadableAll.delimits values room readable.2 ((Nat.le_max_right _ _).trans shallow)⟩
end

/-- Of values read one after another, the first that nests too deeply is where the
reading stops. -/
theorem elements_tooDeep {room : Nat} {values : List Value} (readable : ReadableAll values)
    (deep : room < depthAll values)
    (turnedDown : ∀ inner ∈ values, room < inner.depth → ∀ rest,
      value room (inner.encode ++ rest) = .error .tooDeep) (rest : Bytes) :
    elements (value room) values.length (encodeAll values ++ rest) = .error .tooDeep := by
  induction values with
  | nil => exact absurd deep (Nat.not_lt_zero room)
  | cons found values ih =>
    simp only [encodeAll, List.append_assoc, List.length_cons, elements]
    by_cases here : room < found.depth
    · rw [turnedDown found (by simp) here]
    · have later : room < depthAll values := by
        simp only [depthAll] at deep
        omega
      rw [(Value.Readable.delimits found room readable.1 (by omega)).whole]
      simp only [ih readable.2 later fun inner member => turnedDown inner (by simp [member])]

mutual
/-- A value that nests too deeply is turned down. -/
theorem Value.Readable.tooDeep : ∀ (found : Value) (room : Nat), found.Readable →
    room < found.depth → ∀ rest, value room (found.encode ++ rest) = .error .tooDeep
  | .simpleString _, _, _, deep, _ => absurd deep (Nat.not_lt_zero _)
  | .error _, _, _, deep, _ => absurd deep (Nat.not_lt_zero _)
  | .integer _, _, _, deep, _ => absurd deep (Nat.not_lt_zero _)
  | .bulkString _, _, _, deep, _ => absurd deep (Nat.not_lt_zero _)
  | .array values, room, readable, deep, rest => by
      rw [Value.encode, List.append_assoc, value, line_numbered 42 (by decide)]
      cases room with
      | zero => rfl
      | succ room =>
        simp only [headerLength_decimal readable.1]
        rw [elements_tooDeep readable.2 (Nat.lt_of_succ_lt_succ deep)
          (ReadableAll.tooDeep values room readable.2)]
        rfl

theorem ReadableAll.tooDeep : ∀ (values : List Value) (room : Nat), ReadableAll values →
    ∀ inner ∈ values, room < inner.depth → ∀ rest,
      value room (inner.encode ++ rest) = .error .tooDeep
  | [], _, _ => fun _ member => nomatch member
  | found :: values, room, readable =>
    List.forall_mem_cons.mpr ⟨Value.Readable.tooDeep found room readable.1,
      ReadableAll.tooDeep values room readable.2⟩
end

/-- Encoding is undone by parsing, at every cut, as long as arrays nest no deeper than
the parser goes; a value nested more deeply is turned down. -/
theorem parse_encode (found : Value) (readable : found.Readable) (rest : Bytes) :
    (found.depth ≤ maxDepth →
      parse (found.encode ++ rest) = .ok (some (found, found.encode.length)) ∧
        ∀ part, part <+: found.encode → part ≠ found.encode → parse part = .ok none) ∧
      (maxDepth < found.depth → ∃ error, parse (found.encode ++ rest) = .error error) := by
  constructor
  · intro shallow
    have delimits := readable.delimits found maxDepth shallow
    constructor
    · rw [parse, delimits.whole rest]
      simp [Except.map]
    · intro part isPart proper
      have short : part.length < found.encode.length :=
        lt_of_le_of_ne isPart.length_le fun same => proper (isPart.eq_of_length same)
      rw [parse, List.prefix_iff_eq_take.mp isPart, delimits.part part.length short]
      rfl
  · intro deep
    exact ⟨.tooDeep, by rw [parse, readable.tooDeep found maxDepth deep]; rfl⟩

theorem parse_encode_nested :
    (Value.array [.integer (-3), .array [.bulkString crlf, .error "ERR"]]).Readable ∧
      parse ((Value.array [.integer (-3), .array [.bulkString crlf, .error "ERR"]]).encode ++
        [36]) = .ok (some (.array [.integer (-3), .array [.bulkString crlf, .error "ERR"]],
          27)) := by
  have readable :
      (Value.array [.integer (-3), .array [.bulkString crlf, .error "ERR"]]).Readable := by
    refine ⟨by decide, by simp [Value.Readable, i64Max],
      ⟨by decide, by simp [Value.Readable, crlf, maxBulkLength], ?_, True.intro⟩, True.intro⟩
    exact oneLine_of_line_eq_none rfl
  exact ⟨readable, ((parse_encode _ readable [36]).1 (by decide)).1⟩

end RedisServer
