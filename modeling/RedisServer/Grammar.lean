import RedisServer.Wire

/-!
# What a client reads as one value

The replies of a server as a client takes them apart: lines, numbers, bulk strings,
arrays and the two nulls.  The grammar is free of overlaps, so that a value ends where
it ends whatever follows it.
-/

namespace RedisServer

/-- The bytes of one value, with nothing before it or after it. -/
inductive OneValue : Bytes → Prop where
  | simpleString {content : Bytes} (oneLine : OneLine content) : OneValue (header 43 content)
  | error {content : Bytes} (oneLine : OneLine content) : OneValue (header 45 content)
  | integer (number : Int) : OneValue (header 58 (utf8 (toString number)))
  | bulkString (bytes : Bytes) : OneValue (header 36 (decimal bytes.length) ++ (bytes ++ crlf))
  | null : OneValue (header 36 (utf8 "-1"))
  | nullArray : OneValue (header 42 (utf8 "-1"))
  | array (parts : List Bytes) (each : ∀ part ∈ parts, OneValue part) :
      OneValue (header 42 (decimal parts.length) ++ parts.flatten)

/-- Where a header ends is settled by the header. -/
theorem header_append_inj {kind other : UInt8} {payload payload' rest rest' : Bytes}
    (oneLine : line (kind :: payload) = none) (oneLine' : line (other :: payload') = none)
    (same : header kind payload ++ rest = header other payload' ++ rest') :
    kind = other ∧ payload = payload' ∧ rest = rest' := by
  have read : line (header kind payload ++ rest) = some (kind :: payload, rest) :=
    line_append_crlf oneLine rest
  have read' : line (header other payload' ++ rest') = some (other :: payload', rest') :=
    line_append_crlf oneLine' rest'
  rw [same, read'] at read
  cases read
  exact ⟨rfl, rfl, rfl⟩

theorem decimal_inj {first second : Nat} (same : decimal first = decimal second) :
    first = second := by
  have read := congrArg text same
  rw [text_decimal, text_decimal, Option.some.injEq] at read
  exact Nat.repr_injective read

theorem decimal_ne_minusOne (number : Nat) : decimal number ≠ utf8 "-1" := by
  intro same
  have digit := @digit_of_mem_decimal number 45 (by rw [same]; decide)
  exact absurd digit.1 (by decide)

/-- What may follow the header of a value. -/
inductive Follows : UInt8 → Bytes → Bytes → Prop where
  | line {kind : UInt8} {payload : Bytes} (notBulk : kind ≠ 36) (notArray : kind ≠ 42) :
      Follows kind payload []
  | null {kind : UInt8} : Follows kind (utf8 "-1") []
  | bulkString (bytes : Bytes) : Follows 36 (decimal bytes.length) (bytes ++ crlf)
  | array (parts : List Bytes) (each : ∀ part ∈ parts, OneValue part) :
      Follows 42 (decimal parts.length) parts.flatten

/-- A value is a header and what follows it. -/
theorem OneValue.header_follows {bytes : Bytes} (isValue : OneValue bytes) :
    ∃ kind payload body, bytes = header kind payload ++ body ∧
      RedisServer.line (kind :: payload) = none ∧ Follows kind payload body := by
  have line_minusOne (kind : UInt8) (notReturn : kind ≠ 13) :
      line (kind :: utf8 "-1") = none :=
    line_kind_eq_none notReturn (show OneLine (utf8 "-1") from oneLine_toString (Int.negSucc 0))
  cases isValue with
  | simpleString oneLine =>
    exact ⟨_, _, [], (List.append_nil _).symm, line_kind_eq_none (by decide) oneLine,
      .line (by decide) (by decide)⟩
  | error oneLine =>
    exact ⟨_, _, [], (List.append_nil _).symm, line_kind_eq_none (by decide) oneLine,
      .line (by decide) (by decide)⟩
  | integer number =>
    exact ⟨_, _, [], (List.append_nil _).symm,
      line_kind_eq_none (by decide) (oneLine_toString number),
      .line (by decide) (by decide)⟩
  | bulkString bytes =>
    exact ⟨_, _, _, rfl, line_numbered_eq_none (by decide) _, .bulkString bytes⟩
  | null => exact ⟨_, _, [], (List.append_nil _).symm, line_minusOne _ (by decide), .null⟩
  | nullArray => exact ⟨_, _, [], (List.append_nil _).symm, line_minusOne _ (by decide), .null⟩
  | array parts each =>
    exact ⟨_, _, _, rfl, line_numbered_eq_none (by decide) _, .array parts each⟩

/-- A list of values ends where it ends when each of them does. -/
theorem flatten_append_inj {parts : List Bytes}
    (each : ∀ part ∈ parts, ∀ {second rest rest' : Bytes}, OneValue second →
      part ++ rest = second ++ rest' → part = second ∧ rest = rest') :
    ∀ {others : List Bytes} {rest rest' : Bytes}, (∀ part ∈ others, OneValue part) →
      parts.length = others.length → parts.flatten ++ rest = others.flatten ++ rest' →
      parts = others ∧ rest = rest' := by
  induction parts with
  | nil =>
    intro others rest rest' _ sameLength same
    obtain rfl := List.length_eq_zero_iff.mp sameLength.symm
    exact ⟨rfl, same⟩
  | cons part parts ih =>
    intro others rest rest' areValues sameLength same
    cases others with
    | nil => cases sameLength
    | cons other others =>
      simp only [List.flatten_cons, List.append_assoc] at same
      obtain ⟨rfl, same'⟩ :=
        each part List.mem_cons_self (areValues other List.mem_cons_self) same
      obtain ⟨rfl, rfl⟩ := ih (fun part member => each part (List.mem_cons_of_mem _ member))
        (fun part member => areValues part (List.mem_cons_of_mem _ member))
        (Nat.succ.inj sameLength) same'
      exact ⟨rfl, rfl⟩

/-- A value ends where it ends whatever follows it. -/
theorem OneValue.append_inj {first second rest rest' : Bytes} (isFirst : OneValue first)
    (isSecond : OneValue second) (same : first ++ rest = second ++ rest') :
    first = second ∧ rest = rest' := by
  -- The induction is on the length: the values inside an array are shorter than the array.
  induction length : first.length using Nat.strong_induction_on
    generalizing first second rest rest' with
  | _ count ih =>
    obtain ⟨kind, payload, body, rfl, oneLine, follows⟩ := isFirst.header_follows
    obtain ⟨kind', payload', body', rfl, oneLine', follows'⟩ := isSecond.header_follows
    rw [List.append_assoc, List.append_assoc] at same
    obtain ⟨rfl, rfl, same'⟩ := header_append_inj oneLine oneLine' same
    suffices body = body' ∧ rest = rest' from ⟨by rw [this.1], this.2⟩
    cases follows with
    | line notBulk notArray =>
      cases follows' with
      | line | null => exact ⟨rfl, same'⟩
      | bulkString => exact absurd rfl notBulk
      | array => exact absurd rfl notArray
    | null =>
      generalize payload_eq : utf8 "-1" = payload at follows'
      cases follows' with
      | line | null => exact ⟨rfl, same'⟩
      | bulkString _ | array _ => exact absurd payload_eq.symm (decimal_ne_minusOne _)
    | bulkString bytes =>
      generalize payload_eq : decimal bytes.length = payload at follows'
      cases follows' with
      | line notBulk => exact absurd rfl notBulk
      | null => exact absurd payload_eq (decimal_ne_minusOne _)
      | bulkString bytes' =>
        obtain ⟨rfl, same''⟩ := List.append_inj (by simpa using same')
          (decimal_inj payload_eq)
        exact ⟨rfl, List.append_cancel_left same''⟩
    | array parts each =>
      generalize payload_eq : decimal parts.length = payload at follows'
      cases follows' with
      | line _ notArray => exact absurd rfl notArray
      | null => exact absurd payload_eq (decimal_ne_minusOne _)
      | array parts' each' =>
        have shorter : ∀ part ∈ parts, part.length < count := by
          intro part member
          have := (List.sublist_flatten_of_mem member).length_le
          simp only [header, List.cons_append, List.length_cons, List.length_append] at length
          omega
        obtain ⟨rfl, rfl⟩ := flatten_append_inj
          (fun part member _ _ _ isSecond same =>
            ih _ (shorter part member) (each part member) isSecond same rfl)
          each' (decimal_inj payload_eq) same'
        exact ⟨rfl, rfl⟩

/-! ## Values that are laid out as one -/

theorem oneLine_of_no_return {content : String} (noReturn : '\r' ∉ content.toList) :
    OneLine (utf8 content) := by
  apply oneLine_of_line_eq_none
  apply line_eq_none_of_no_cr
  intro byte member isReturn
  exact noReturn (return_of_mem_utf8 (isReturn ▸ member))

mutual
/-- A value of which no text runs over the end of its line, and that stands for one
value only. -/
def Value.Clean : Value → Prop
  | .simpleString content => OneLine (utf8 content)
  | .error message => OneLine (utf8 message)
  | .array values => CleanAll values
  | .file _ => False
  | .sequence _ => False
  | _ => True

def CleanAll : List Value → Prop
  | [] => True
  | found :: values => found.Clean ∧ CleanAll values
end

theorem cleanAll_iff {values : List Value} : CleanAll values ↔ ∀ found ∈ values, found.Clean := by
  induction values with
  | nil => simp [CleanAll]
  | cons found values ih => simp [CleanAll, ih]

@[simp] theorem clean_bulkString (bytes : Bytes) : (Value.bulkString bytes).Clean := True.intro

@[simp] theorem clean_integer (number : Int) : (Value.integer number).Clean := True.intro

@[simp] theorem clean_null : Value.null.Clean := True.intro

@[simp] theorem clean_nullArray : Value.nullArray.Clean := True.intro

@[simp] theorem clean_array {values : List Value} :
    (Value.array values).Clean ↔ ∀ found ∈ values, found.Clean := by
  rw [Value.Clean, cleanAll_iff]

theorem clean_error {message : String} (noReturn : '\r' ∉ message.toList) :
    (Value.error message).Clean :=
  oneLine_of_no_return noReturn

mutual
/-- A clean value is laid out as one value. -/
theorem Value.Clean.oneValue : ∀ {found : Value}, found.Clean → OneValue found.encode
  | .simpleString _, clean => .simpleString clean
  | .error _, clean => .error clean
  | .integer number, _ => .integer number
  | .bulkString bytes, _ => by
      rw [Value.encode, List.append_assoc]
      exact .bulkString bytes
  | .array values, clean => by
      have laidOut := OneValue.array (values.map Value.encode) (CleanAll.oneValue clean)
      rwa [List.length_map, ← List.flatMap_def, ← encodeAll_eq_flatMap] at laidOut
  | .null, _ => .null
  | .nullArray, _ => .nullArray
  | .file _, clean => clean.elim
  | .sequence _, clean => clean.elim

theorem CleanAll.oneValue : ∀ {values : List Value}, CleanAll values →
    ∀ part ∈ values.map Value.encode, OneValue part
  | [], _ => by simp
  | _ :: _, clean => List.forall_mem_cons.mpr ⟨clean.1.oneValue, CleanAll.oneValue clean.2⟩
end

/-- An error is one value when its text is one line. -/
theorem oneValue_error {message : String} :
    OneValue (Value.error message).encode ↔ OneLine (utf8 message) := by
  constructor
  · intro isValue
    generalize same : (Value.error message).encode = bytes at isValue
    cases isValue with
    | error oneLine =>
      have sameText := List.append_cancel_right (List.cons.inj same).2
      rwa [sameText]
    | _ => simp [Value.encode, header] at same
  · intro oneLine
    exact .error oneLine

/-! ## Texts put into a line -/

theorem OneLine.cons {byte : UInt8} {bytes : Bytes} (notReturn : byte ≠ 13)
    (oneLine : OneLine bytes) : OneLine (byte :: bytes) :=
  oneLine_of_line_eq_none (line_kind_eq_none notReturn oneLine)

/-- A text between two others ends their line only if it holds a line end itself. -/
theorem oneLine_between {before middle after : Bytes} (noReturn : 13 ∉ before)
    (noReturn' : 13 ∉ after) (start : after.head? ≠ some 10) :
    OneLine (before ++ middle ++ after) ↔ OneLine middle := by
  constructor
  · intro oneLine inside
    exact oneLine (inside.trans ⟨before, after, rfl⟩)
  · intro oneLine
    have closed : OneLine (middle ++ after) := by
      apply oneLine_of_line_eq_none
      apply line_append_eq_none (line_eq_none_of_oneLine oneLine) _ start
      exact line_eq_none_of_no_cr fun byte member isReturn => noReturn' (isReturn ▸ member)
    rw [List.append_assoc]
    induction before with
    | nil => exact closed
    | cons byte before ih =>
      rw [List.mem_cons, not_or] at noReturn
      exact (ih noReturn.2).cons (Ne.symm noReturn.1)

/-- An error that names a text is one value when that text is one line. -/
theorem oneValue_naming {before named after : String} (noReturn : '\r' ∉ before.toList)
    (noReturn' : '\r' ∉ after.toList) (start : (utf8 after).head? ≠ some 10) :
    OneValue (Value.error (before ++ named ++ after)).encode ↔ OneLine (utf8 named) := by
  rw [oneValue_error, utf8_append, utf8_append]
  exact oneLine_between (fun member => noReturn (return_of_mem_utf8 member))
    (fun member => noReturn' (return_of_mem_utf8 member)) start

end RedisServer
