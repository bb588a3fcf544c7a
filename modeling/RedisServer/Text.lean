import Mathlib

/-!
# Bytes, text and numbers as the server reads them

Keys, values and payloads are raw bytes.  Command names, option keywords and
numbers are text, read from bytes by checking that they are UTF-8.  This module
states the text functions of Rust's standard library the server uses: reading
and writing integers in decimal, comparing without regard to ASCII case, and
the lossy reading that error messages echo client bytes through.

Unicode's case tables, the SHA-256 hash and the spelling of doubles lie outside
both the repository and Lean's library, so they are parameters: a `Platform`.
-/

namespace RedisServer

variable {limit result number : Nat} {content : String} {char : Char}

/-- A run of raw bytes. -/
abbrev Bytes := List UInt8

instance : LawfulBEq Bytes := inferInstance

/-- The UTF-8 bytes of a text. -/
def utf8 (text : String) : Bytes := text.toByteArray.data.toList

/-- What the server takes from outside the repository: the full Unicode case
mappings of a text, of which only the behaviour on ASCII is relied on, the hash
passwords are kept under, and how doubles are written out, of which only that they
stay on one line. -/
class Platform where
  toUppercase : String → String
  toLowercase : String → String
  sha256 : Bytes → Bytes
  /-- The shortest spelling that reads back as the same number. -/
  showFloat : Float → String
  /-- A number to so many places after the point. -/
  showFixed : Nat → Float → String
  toUppercase_ascii : ∀ text : String, (∀ char ∈ text.toList, char.val < 128) →
    (toUppercase text).toList = text.toList.map Char.toUpper
  toLowercase_ascii : ∀ text : String, (∀ char ∈ text.toList, char.val < 128) →
    (toLowercase text).toList = text.toList.map Char.toLower
  showFixed_no_return : ∀ places number, '\r' ∉ (showFixed places number).toList

/-- A platform that knows no letters but those of ASCII, hashes to nothing and writes
no doubles, for runs that need no more than that. -/
abbrev Platform.ascii : Platform where
  toUppercase text := String.ofList (text.toList.map Char.toUpper)
  toLowercase text := String.ofList (text.toList.map Char.toLower)
  sha256 _ := []
  showFloat _ := ""
  showFixed _ _ := ""
  toUppercase_ascii _ _ := by simp
  toLowercase_ascii _ _ := by simp
  showFixed_no_return _ _ := by simp

/-- Reads an argument as text. -/
def text (argument : Bytes) : Option String :=
  String.fromUTF8? ⟨argument.toArray⟩

/-- Equality of bytes up to the case of ASCII letters. -/
def eqIgnoreAsciiCase (left right : Bytes) : Bool :=
  left.map lower == right.map lower
where
  lower (byte : UInt8) : UInt8 :=
    if 65 ≤ byte ∧ byte ≤ 90 then byte + 32 else byte

/-! ## Reading what is not text -/

/-- A byte that carries on a character begun before it. -/
def isContinuation (byte : UInt8) : Bool := 128 ≤ byte ∧ byte ≤ 191

/-- Whether a byte may come second after the given first byte of a character of
three bytes or four.  The bounds leave out overlong spellings, surrogates and
what lies past the last character. -/
def mayFollow (first second : UInt8) : Bool :=
  if first = 0xE0 then 0xA0 ≤ second ∧ second ≤ 0xBF
  else if first = 0xED then 0x80 ≤ second ∧ second ≤ 0x9F
  else if first = 0xF0 then 0x90 ≤ second ∧ second ≤ 0xBF
  else if first = 0xF4 then 0x80 ≤ second ∧ second ≤ 0x8F
  else isContinuation second

/-- The character whose number is spelled by the low bits of these bytes. -/
def charOf (lead : Nat) (tail : List UInt8) : Char :=
  Char.ofNat (tail.foldl (fun number byte => number * 64 + byte.toNat % 64) lead)

/-- `String::from_utf8_lossy`: every longest run of bytes that begins no
character gives way to one replacement character. -/
def fromUtf8Lossy (bytes : Bytes) : String := String.ofList (go bytes)
where
  replacement : Char := Char.ofNat 0xFFFD
  go : Bytes → List Char
    | [] => []
    | first :: rest =>
      if first < 0x80 then Char.ofNat first.toNat :: go rest
      else if 0xC2 ≤ first ∧ first ≤ 0xDF then
        match rest with
        | second :: rest =>
          if isContinuation second then
            charOf (first.toNat % 32) [second] :: go rest
          else replacement :: go (second :: rest)
        | [] => [replacement]
      else if 0xE0 ≤ first ∧ first ≤ 0xEF then
        match rest with
        | second :: rest =>
          if !mayFollow first second then replacement :: go (second :: rest)
          else
            match rest with
            | third :: rest =>
              if isContinuation third then
                charOf (first.toNat % 16) [second, third] :: go rest
              else replacement :: go (third :: rest)
            | [] => [replacement]
        | [] => [replacement]
      else if 0xF0 ≤ first ∧ first ≤ 0xF4 then
        match rest with
        | second :: rest =>
          if !mayFollow first second then replacement :: go (second :: rest)
          else
            match rest with
            | third :: rest =>
              if !isContinuation third then replacement :: go (third :: rest)
              else
                match rest with
                | fourth :: rest =>
                  if isContinuation fourth then
                    charOf (first.toNat % 8) [second, third, fourth] :: go rest
                  else replacement :: go (fourth :: rest)
                | [] => [replacement]
            | [] => [replacement]
        | [] => [replacement]
      else replacement :: go rest

/-! ## Integers in decimal -/

/-- Why a text is not an integer of the wanted width. -/
inductive IntError where
  | empty
  | invalidDigit
  | posOverflow
  | negOverflow
  deriving DecidableEq, Repr

/-- The number a decimal digit stands for. -/
def digitValue (char : Char) : Option Nat :=
  if '0' ≤ char ∧ char ≤ '9' then some (char.toNat - 48) else none

/-- Reads digits after `number`, refusing what passes `limit`.  A character is
looked at before the number it makes is. -/
def parseDigits (limit : Nat) (overflow : IntError) :
    Nat → List Char → Except IntError Nat
  | number, [] => .ok number
  | number, char :: chars =>
    match digitValue char with
    | none => .error .invalidDigit
    | some digit =>
      if limit < number * 10 + digit then .error overflow
      else parseDigits limit overflow (number * 10 + digit) chars

/-- `str::parse` at an unsigned type whose greatest value is `limit`. -/
def parseUnsigned (limit : Nat) (text : String) : Except IntError Nat :=
  match text.toList with
  | [] => .error .empty
  | ['+'] => .error .invalidDigit
  | '+' :: digits => parseDigits limit .posOverflow 0 digits
  | digits => parseDigits limit .posOverflow 0 digits

/-- `str::parse` at a signed type holding `-limit - 1` to `limit`. -/
def parseSigned (limit : Nat) (text : String) : Except IntError Int :=
  match text.toList with
  | [] => .error .empty
  | ['+'] => .error .invalidDigit
  | ['-'] => .error .invalidDigit
  | '+' :: digits => (parseDigits limit .posOverflow 0 digits).map Int.ofNat
  | '-' :: digits =>
    (parseDigits (limit + 1) .negOverflow 0 digits).map fun number => -(number : Int)
  | digits => (parseDigits limit .posOverflow 0 digits).map Int.ofNat

/-- The greatest values of the machine integers the server reads. -/
def u64Max : Nat := 2 ^ 64 - 1

def i64Max : Nat := 2 ^ 63 - 1

/-- `usize` is taken to be as wide as it is on the machines Redis runs on. -/
def usizeMax : Nat := u64Max

def parseU64 (text : String) : Option Nat := (parseUnsigned u64Max text).toOption

def parseI64 (text : String) : Option Int := (parseSigned i64Max text).toOption

/-! ## Doubles in decimal -/

/-- The digits at the front, and what follows them. -/
def leadingDigits (chars : List Char) : List Char × List Char := chars.span Char.isDigit

/-- The exponent a number ends in, if it ends in one. -/
def parseExponent : List Char → Option Int
  | [] => some 0
  | mark :: rest =>
    if mark = 'e' ∨ mark = 'E' then
      match rest with
      | '-' :: digits => (wholly digits).map fun number => -(number : Int)
      | '+' :: digits => (wholly digits).map Int.ofNat
      | digits => (wholly digits).map Int.ofNat
    else none
where
  wholly (digits : List Char) : Option Nat :=
    match leadingDigits digits with
    | ([], _) => none
    | (digits, []) => some (Nat.ofDigitChars 10 digits 0)
    | _ => none

/-- A decimal number without its sign. -/
def parseMagnitude (chars : List Char) : Option Float :=
  let (whole, rest) := leadingDigits chars
  let (fraction, rest) :=
    match rest with
    | '.' :: rest => leadingDigits rest
    | _ => ([], rest)
  if (whole ++ fraction).isEmpty then none
  else
    (parseExponent rest).map fun exponent =>
      let mantissa := Nat.ofDigitChars 10 (whole ++ fraction) 0
      let exponent : Int := exponent - fraction.length
      Float.ofScientific mantissa (exponent < 0) exponent.natAbs

/-- The names of what is no finite number. -/
def parseSpecial (chars : List Char) : Option Float :=
  match String.ofList (chars.map Char.toLower) with
  | "inf" | "infinity" => some (1 / 0)
  | "nan" => some (0 / 0)
  | _ => none

/-- `str::parse` at `f64`. -/
def parseF64 (text : String) : Option Float :=
  match text.toList with
  | '-' :: chars => (unsigned chars).map fun number => -number
  | '+' :: chars => unsigned chars
  | chars => unsigned chars
where
  unsigned (chars : List Char) : Option Float :=
    match parseMagnitude chars with
    | some number => some number
    | none => parseSpecial chars

/-- Numbers as `ZADD` reads them. -/
example : parseF64 "-1.5e1" = some (-15) ∧ parseF64 "." = none ∧
    parseF64 "+inf" = some (1 / 0) := by
  decide +kernel

/-! ## Round trips -/

@[simp] theorem text_utf8 (content : String) : text (utf8 content) = some content := by
  have bytesEq : (⟨(utf8 content).toArray⟩ : ByteArray) = content.toByteArray := rfl
  simp only [text, bytesEq, String.fromUTF8?, dif_pos content.isValidUTF8]
  rfl

theorem text_eq_some {bytes : Bytes} (read : text bytes = some content) : bytes = utf8 content := by
  simp only [text, String.fromUTF8?] at read
  split at read
  · rw [Option.some.injEq] at read
    subst read
    rfl
  · cases read

/-- An ASCII text is one byte to a character. -/
theorem utf8_ofList_ascii (chars : List Char)
    (ascii : ∀ char ∈ chars, char.val < 128) :
    utf8 (String.ofList chars) = chars.map fun char => char.val.toUInt8 := by
  have single : ∀ char ∈ chars,
      String.utf8EncodeChar char = [char.val.toUInt8] := by
    intro char member
    have small : char.val.toNat ≤ 127 := by
      have bound := UInt32.lt_iff_toNat_lt.mp (ascii char member)
      exact Nat.le_of_lt_succ bound
    simp only [String.utf8EncodeChar, small, if_true]
    congr 1
  simp only [utf8, String.toByteArray_ofList, List.utf8Encode,
    List.data_toByteArray]
  induction chars with
  | nil => rfl
  | cons char chars ih =>
    simp only [List.flatMap_cons, List.map_cons,
      single char (by simp), List.singleton_append, List.cons.injEq, true_and]
    apply ih
    · exact fun other member => ascii other (by simp [member])
    · exact fun other member => single other (by simp [member])

theorem mem_utf8_ascii (ascii : ∀ char ∈ content.toList, char.val < 128) {byte : UInt8}
    (member : byte ∈ utf8 content) :
    ∃ char ∈ content.toList, byte = char.val.toUInt8 := by
  have spelled : utf8 content = content.toList.map fun char => char.val.toUInt8 := by
    rw [← utf8_ofList_ascii _ ascii, String.ofList_toList]
  rw [spelled] at member
  obtain ⟨char, charMember, isByte⟩ := List.mem_map.mp member
  exact ⟨char, charMember, isByte.symm⟩

theorem utf8_append (first second : String) :
    utf8 (first ++ second) = utf8 first ++ utf8 second := by
  simp [utf8]

/-- Only the character itself is spelled with the byte of a line's end. -/
theorem return_of_mem_utf8 (member : 13 ∈ utf8 content) :
    '\r' ∈ content.toList := by
  rw [← content.ofList_toList] at member
  simp only [utf8, String.toByteArray_ofList, List.utf8Encode,
    List.data_toByteArray, List.mem_flatMap] at member
  obtain ⟨char, isMember, spelled⟩ := member
  suffices number : char.val.toNat = 13 from
    (Char.toNat_inj.mp number : char = '\r') ▸ isMember
  have high {number : Nat} (low : 128 ≤ number) (small : number < 256) :
      (13 : UInt8) ≠ UInt8.ofNat number := by
    intro same
    have : 13 = number % 256 := by simpa using congrArg UInt8.toNat same
    omega
  simp only [String.utf8EncodeChar] at spelled
  split at spelled
  · have same : 13 = char.toNat % 256 := by
      simpa using congrArg UInt8.toNat (List.mem_singleton.mp spelled)
    exact (same.trans (Nat.mod_eq_of_lt (by unfold Char.toNat; omega))).symm
  · exfalso
    split at spelled
    · simp only [List.mem_cons, List.not_mem_nil, or_false] at spelled
      rcases spelled with first | second
      · exact high (by omega) (by omega) first
      · exact high (by omega) (by omega) second
    · split at spelled
      · simp only [List.mem_cons, List.not_mem_nil, or_false] at spelled
        rcases spelled with first | second | third
        · exact high (by omega) (by omega) first
        · exact high (by omega) (by omega) second
        · exact high (by omega) (by omega) third
      · simp only [List.mem_cons, List.not_mem_nil, or_false] at spelled
        rcases spelled with first | second | third | fourth
        · exact high (by omega) (by omega) first
        · exact high (by omega) (by omega) second
        · exact high (by omega) (by omega) third
        · exact high (by omega) (by omega) fourth

theorem toNat_charOf (lead : Nat) (tail : List UInt8) :
    (charOf lead tail).toNat = 0 ∨ (charOf lead tail).toNat =
      tail.foldl (fun number byte => number * 64 + byte.toNat % 64) lead := by
  unfold charOf Char.ofNat
  split
  · exact .inr rfl
  · exact .inl rfl

theorem fromUtf8Lossy_no_return {bytes : Bytes} (noReturn : 13 ∉ bytes) :
    '\r' ∉ (fromUtf8Lossy bytes).toList := by
  rw [fromUtf8Lossy, String.toList_ofList]
  have large {lead : Nat} {tail : List UInt8}
      (large : 128 ≤ tail.foldl (fun number byte => number * 64 + byte.toNat % 64) lead) :
      '\r' ≠ charOf lead tail := by
    intro same
    have number : (charOf lead tail).toNat = 13 := by rw [← same]; rfl
    have := toNat_charOf lead tail
    omega
  fun_induction fromUtf8Lossy.go bytes with
  | case1 => simp
  | case2 first rest small ih =>
    simp only [List.mem_cons, not_or] at noReturn ⊢
    refine ⟨?_, ih noReturn.2⟩
    intro same
    have number : (charOf first.toNat []).toNat = 13 := congrArg Char.toNat same.symm
    have different : first.toNat ≠ 13 := fun isReturn =>
      noReturn.1 (UInt8.toNat_inj.mp isReturn.symm)
    rcases toNat_charOf first.toNat [] with isZero | isFirst
    · cases number.symm.trans isZero
    · exact different (isFirst.symm.trans number)
  | case3 first _ bounds second rest continues ih =>
    simp only [List.mem_cons, not_or] at noReturn ⊢
    refine ⟨large ?_, ih noReturn.2.2⟩
    simp only [UInt8.le_iff_toNat_le, UInt8.toNat_ofNat] at bounds
    simp only [List.foldl_cons, List.foldl_nil]
    omega
  | case7 first _ _ bounds second follows third rest continues ih =>
    simp only [List.mem_cons, not_or] at noReturn ⊢
    refine ⟨large ?_, ih noReturn.2.2.2⟩
    have second_low (isLeast : first = 0xE0) : 160 ≤ second.toNat ∧ second.toNat ≤ 191 := by
      simpa [mayFollow, isLeast, UInt8.le_iff_toNat_le] using follows
    simp only [UInt8.le_iff_toNat_le, UInt8.toNat_ofNat, ← UInt8.toNat_inj] at bounds second_low
    simp only [List.foldl_cons, List.foldl_nil]
    omega
  | case13 first _ _ _ bounds second follows third _ fourth rest continues ih =>
    simp only [List.mem_cons, not_or] at noReturn ⊢
    refine ⟨large ?_, ih noReturn.2.2.2.2⟩
    have second_low (isLeast : first = 0xF0) : 144 ≤ second.toNat ∧ second.toNat ≤ 191 := by
      simpa [mayFollow, isLeast, UInt8.le_iff_toNat_le] using follows
    simp only [UInt8.le_iff_toNat_le, UInt8.toNat_ofNat, ← UInt8.toNat_inj] at bounds second_low
    simp only [List.foldl_cons, List.foldl_nil]
    omega
  | _ => simp_all [fromUtf8Lossy.replacement]

theorem digitValue_of_isDigit (digit : char.isDigit) :
    digitValue char = some (char.toNat - 48) := by
  have bounds : '0' ≤ char ∧ char ≤ '9' := by
    simpa [Char.isDigit, Char.le_def] using digit
  simp [digitValue, bounds]

theorem isDigit_of_parseDigits {overflow : IntError} {chars : List Char}
    (read : parseDigits limit overflow number chars = .ok result) :
    ∀ char ∈ chars, char.isDigit := by
  induction chars generalizing number with
  | nil => simp
  | cons char chars ih =>
    simp only [parseDigits, digitValue] at read
    split at read
    · cases read
    · rename_i digit isDigit
      split at read
      · cases read
      · intro other member
        rcases List.mem_cons.mp member with rfl | member
        · simp only [Option.ite_none_right_eq_some, Option.some.injEq] at isDigit
          simpa [Char.isDigit, Char.le_def] using isDigit.1
        · exact ih read other member

/-- A length is spelled in digits, perhaps after a plus sign. -/
theorem mem_of_parseUnsigned (read : parseUnsigned limit content = .ok result) :
    ∀ char ∈ content.toList, char.isDigit ∨ char = '+' := by
  unfold parseUnsigned at read
  split at read
  · cases read
  · cases read
  · rename_i digits _ spelled
    rw [spelled]
    intro char member
    rcases List.mem_cons.mp member with rfl | member
    · exact .inr rfl
    · exact .inl (isDigit_of_parseDigits read char member)
  · exact fun char member => .inl (isDigit_of_parseDigits read char member)

theorem parseDigits_le {overflow : IntError} {chars : List Char} (small : number ≤ limit)
    (read : parseDigits limit overflow number chars = .ok result) : result ≤ limit := by
  induction chars generalizing number with
  | nil =>
    simp only [parseDigits, Except.ok.injEq] at read
    omega
  | cons char chars ih =>
    simp only [parseDigits] at read
    split at read
    · cases read
    · split at read
      · cases read
      · exact ih (by omega) read

theorem parseUnsigned_le (read : parseUnsigned limit content = .ok result) : result ≤ limit := by
  unfold parseUnsigned at read
  split at read
  · cases read
  · cases read
  · exact parseDigits_le (Nat.zero_le _) read
  · exact parseDigits_le (Nat.zero_le _) read

private theorem le_ofDigitChars (digits : List Char) (number : Nat) :
    number ≤ Nat.ofDigitChars 10 digits number := by
  induction digits generalizing number with
  | nil => simp
  | cons char digits ih =>
    rw [Nat.ofDigitChars_cons]
    exact le_trans (by omega) (ih _)

/-- Digits are read as the number they spell, when it fits. -/
theorem parseDigits_of_isDigit (limit : Nat) (overflow : IntError)
    (digits : List Char) (number : Nat)
    (allDigits : ∀ char ∈ digits, char.isDigit)
    (fits : Nat.ofDigitChars 10 digits number ≤ limit) :
    parseDigits limit overflow number digits =
      .ok (Nat.ofDigitChars 10 digits number) := by
  induction digits generalizing number with
  | nil => simp [parseDigits]
  | cons char digits ih =>
    have next : 10 * number + (char.toNat - 48) = number * 10 + (char.toNat - 48) := by
      omega
    rw [Nat.ofDigitChars_cons] at fits ⊢
    have small : ¬ limit < number * 10 + (char.toNat - 48) := by
      have bound := le_ofDigitChars digits (10 * number + (char.toNat - 48))
      have fits' : Nat.ofDigitChars 10 digits (10 * number + (char.toNat - 48)) ≤ limit :=
        fits
      omega
    simp only [parseDigits, digitValue_of_isDigit (allDigits char (by simp)),
      if_neg small]
    rw [ih _ (fun other member => allDigits other (by simp [member]))
      (by rw [← next]; exact fits)]
    rw [← next]
    rfl

/-- The decimal spelling of a number, as bytes. -/
def decimal (number : Nat) : Bytes := utf8 (toString number)

theorem toDigits_isDigit (number : Nat) :
    ∀ char ∈ Nat.toDigits 10 number, char.isDigit :=
  fun _ member => Nat.isDigit_of_mem_toDigits (by decide) (by decide) member

/-- A number that fits is read back from its own spelling. -/
theorem parseUnsigned_toString (fits : number ≤ limit) :
    parseUnsigned limit (toString number) = .ok number := by
  have spelled : (toString number).toList = Nat.toDigits 10 number := by
    simp
  have read := parseDigits_of_isDigit limit .posOverflow (Nat.toDigits 10 number) 0
    (toDigits_isDigit number) (by simpa using fits)
  rw [Nat.ofDigitChars_ten_toDigits] at read
  have digits := toDigits_isDigit number
  unfold parseUnsigned
  rw [spelled]
  split
  · exact absurd ‹_› Nat.toDigits_ne_nil
  · rename_i plus
    exact absurd (digits '+' (by simp [plus])) (by decide)
  · rename_i plus
    exact absurd (digits '+' (by simp [plus])) (by decide)
  · exact read

theorem toString_ofNat_toList (number : Nat) :
    (toString (Int.ofNat number)).toList = Nat.toDigits 10 number := by
  simp [toString, Int.repr]

theorem toString_negSucc_toList (number : Nat) :
    (toString (Int.negSucc number)).toList = '-' :: Nat.toDigits 10 (number + 1) := by
  simp [toString, Int.repr]

/-- A number that may be negative is read back too. -/
theorem parseSigned_toString {number : Int} (low : -(limit : Int) - 1 ≤ number)
    (high : number ≤ limit) : parseSigned limit (toString number) = .ok number := by
  have readDigits (bound : Nat) (overflow : IntError) (size : Nat) (fits : size ≤ bound) :
      parseDigits bound overflow 0 (Nat.toDigits 10 size) = .ok size := by
    have read := parseDigits_of_isDigit bound overflow (Nat.toDigits 10 size) 0
      (toDigits_isDigit size) (by simpa using fits)
    rwa [Nat.ofDigitChars_ten_toDigits] at read
  cases number with
  | ofNat number =>
    have digits := toDigits_isDigit number
    have read := readDigits limit .posOverflow number (by simpa using high)
    unfold parseSigned
    rw [toString_ofNat_toList]
    split
    · exact absurd ‹_› Nat.toDigits_ne_nil
    · rename_i plus
      exact absurd (digits '+' (by simp [plus])) (by decide)
    · rename_i minus
      exact absurd (digits '-' (by simp [minus])) (by decide)
    · rename_i plus
      exact absurd (digits '+' (by simp [plus])) (by decide)
    · rename_i minus
      exact absurd (digits '-' (by simp [minus])) (by decide)
    · rw [read]
      rfl
  | negSucc number =>
    have read := readDigits (limit + 1) .negOverflow (number + 1) (by omega)
    unfold parseSigned
    rw [toString_negSucc_toList]
    split
    · rename_i none
      cases none
    · rename_i plus
      cases plus
    · rename_i minus
      exact absurd (List.cons.inj minus).2 Nat.toDigits_ne_nil
    · rename_i plus
      cases plus
    · rename_i minus
      rw [← (List.cons.inj minus).2, read]
      rfl
    · rename_i other
      exact absurd rfl (other _)

/-- A digit is one of ten bytes. -/
theorem byte_of_isDigit (digit : char.isDigit) :
    48 ≤ char.val.toUInt8 ∧ char.val.toUInt8 ≤ 57 := by
  simp only [Char.isDigit, Bool.and_eq_true, decide_eq_true_eq] at digit
  have low : 48 ≤ char.toNat := UInt32.le_iff_toNat_le.mp digit.1
  have high : char.toNat ≤ 57 := UInt32.le_iff_toNat_le.mp digit.2
  constructor
  all_goals
    rw [UInt8.le_iff_toNat_le, UInt32.toNat_toUInt8]
    simp
    omega

theorem ascii_of_isDigit (digit : char.isDigit) : char.val < 128 := by
  simp only [Char.isDigit, Bool.and_eq_true, decide_eq_true_eq] at digit
  exact UInt32.lt_of_le_of_lt digit.2 (by decide)

theorem decimal_eq (number : Nat) :
    decimal number = (Nat.toDigits 10 number).map fun char => char.val.toUInt8 := by
  rw [decimal, Nat.toString_eq_ofList_toDigits, utf8_ofList_ascii]
  exact fun char member => ascii_of_isDigit (toDigits_isDigit number char member)

/-- A number is spelled in digits and nothing else. -/
theorem digit_of_mem_decimal {number : Nat} {byte : UInt8}
    (member : byte ∈ decimal number) : 48 ≤ byte ∧ byte ≤ 57 := by
  rw [decimal_eq, List.mem_map] at member
  obtain ⟨char, charMember, rfl⟩ := member
  exact byte_of_isDigit (toDigits_isDigit number char charMember)

/-- A length holds no byte that starts an array. -/
theorem ne_star_of_parseUnsigned (read : parseUnsigned limit content = .ok result) :
    ∀ byte ∈ utf8 content, byte ≠ 42 := by
  have spelled := mem_of_parseUnsigned read
  have ascii : ∀ char ∈ content.toList, char.val < 128 := by
    intro char member
    rcases spelled char member with digit | rfl
    · exact ascii_of_isDigit digit
    · decide
  intro byte member star
  obtain ⟨char, charMember, rfl⟩ := mem_utf8_ascii ascii member
  rcases spelled char charMember with digit | rfl
  · have low := (byte_of_isDigit digit).1
    rw [star] at low
    exact absurd low (by decide)
  · exact absurd star (by decide)

/-- A number is spelled without a line end. -/
theorem ne_return_of_mem_toString {number : Int} {byte : UInt8}
    (member : byte ∈ utf8 (toString number)) : byte ≠ 13 := by
  have spelled : ∀ char ∈ (toString number).toList, char.isDigit ∨ char = '-' := by
    intro char charMember
    cases number with
    | ofNat number =>
      rw [toString_ofNat_toList] at charMember
      exact .inl (toDigits_isDigit number char charMember)
    | negSucc number =>
      rw [toString_negSucc_toList] at charMember
      rcases List.mem_cons.mp charMember with rfl | digit
      · exact .inr rfl
      · exact .inl (toDigits_isDigit _ char digit)
  have ascii : ∀ char ∈ (toString number).toList, char.val < 128 := by
    intro char charMember
    rcases spelled char charMember with digit | rfl
    · exact ascii_of_isDigit digit
    · decide
  intro isReturn
  obtain ⟨char, charMember, rfl⟩ := mem_utf8_ascii ascii member
  rcases spelled char charMember with digit | rfl
  · have low := (byte_of_isDigit digit).1
    rw [isReturn] at low
    exact absurd low (by decide)
  · exact absurd isReturn (by decide)

theorem text_decimal (number : Nat) : text (decimal number) = some (toString number) :=
  text_utf8 _

end RedisServer
