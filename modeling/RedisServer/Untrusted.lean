import RedisServer.Unsqueezing

/-!
# Reading whatever a file holds

What the reader comes to on bytes nobody vouches for: it gives what it has read and stops
behind it, or refuses.  The one way to a panic is a squeezed string, all of it there, that
claims to let out to more than any vector holds.
-/

namespace RedisServer.Rdb

open Layout

/-- A reading that was turned down, whatever stands there. -/
def Refused (failure : Failure) (_ : Bytes) : Prop := ∃ refusal, failure = .refused refusal

/-! ## Fields -/

theorem comes_take (length : Nat) :
    Comes (take length) (fun bytes layout => bytes = layout ∧ layout.length = length) Refused := by
  intro before rest
  by_cases large : 2 ^ 64 ≤ before.length + length
  · exact .inr ⟨_, ⟨_, rfl⟩, by simp only [take]; rw [if_pos large]⟩
  · by_cases short : (before ++ rest).length < before.length + length
    · exact .inr ⟨_, ⟨_, rfl⟩, by simp only [take]; rw [if_neg large, if_pos short]⟩
    · have enough : length ≤ rest.length := by
        rw [List.length_append] at short
        omega
      refine .inl ⟨rest.take length, rest.take length, rest.drop length,
        ⟨rfl, List.length_take_of_le enough⟩, (List.take_append_drop _ _).symm, ?_⟩
      simp only [take]
      rw [if_neg large, if_neg short, List.drop_left, List.length_take_of_le enough]

theorem comes_byte : Comes byte (fun first layout => layout = [first]) Refused := by
  refine (comes_take 1).bind ?_ fun _ _ => id
  rintro bytes layout ⟨rfl, isOne⟩
  obtain ⟨first, rfl⟩ := List.length_eq_one_iff.mp isOne
  exact .pure rfl

/-- How what was read as a length is stored. -/
def Length.LaidOut : Length → Bytes → Prop
  | .of number, layout => ∃ count : Count, count.value = number ∧ layout = count.layout
  | .packed how, layout => ∃ mark : UInt8, mark.toNat = 192 + how.toNat ∧ how.toNat < 64 ∧
      layout = [mark]

/-- A byte is the one spelled by its number. -/
theorem ofNat_eq_of_toNat {byte : UInt8} {number : Nat} (same : number % 256 = byte.toNat) :
    UInt8.ofNat number = byte := by
  apply UInt8.toNat_inj.mp
  rw [UInt8.toNat_ofNat', same]

/-- A length spelled out in whole bytes behind its mark. -/
theorem comes_whole (width : Width) (mark : UInt8) (bytes : Nat)
    (bits : 2 ^ width.bits = 256 ^ bytes)
    (isLayout : ∀ number, width.layout number = mark :: beBytes bytes number) :
    Comes (take bytes >>= fun read => pure (.of (ofBe read)) : Reading Length)
      (fun result back => result.LaidOut ([mark] ++ back))
      fun failure behind => Refused failure ([mark] ++ behind) := by
  refine (comes_take bytes).bind ?_ fun _ _ => id
  rintro read _ ⟨rfl, rfl⟩
  refine .pure ⟨⟨width, ofBe read, bits ▸ ofBe_lt read⟩, rfl, ?_⟩
  rw [Count.layout, isLayout, beBytes_ofBe, List.append_nil]
  rfl

theorem comes_length : Comes length Length.LaidOut Refused := by
  refine comes_byte.bind ?_ fun _ _ => id
  rintro first _ rfl
  have small := first.toNat_lt
  have top := toNat_shiftRight_six first
  have bottom := toNat_and_lowSix first
  split
  · rename_i inSix
    refine .pure ⟨⟨.six, (first &&& 0x3f).toNat, ?_⟩, rfl, ?_⟩
    · simp only [Width.bits]
      omega
    · have isFirst : UInt8.ofNat (first &&& 0x3f).toNat = first := ofNat_eq_of_toNat (by omega)
      rw [Count.layout, Width.layout, isFirst]
      rfl
  · rename_i inFourteen
    refine comes_byte.bind ?_ fun _ _ => id
    rintro second _ rfl
    have smallToo := second.toNat_lt
    refine .pure ⟨⟨.fourteen, (first &&& 0x3f).toNat * 256 + second.toNat, ?_⟩, rfl, ?_⟩
    · simp only [Width.bits]
      omega
    · have isFirst : UInt8.ofNat
          (64 + ((first &&& 0x3f).toNat * 256 + second.toNat) / 256) = first :=
        ofNat_eq_of_toNat (by omega)
      have isSecond : UInt8.ofNat ((first &&& 0x3f).toNat * 256 + second.toNat) = second :=
        ofNat_eq_of_toNat (by omega)
      rw [Count.layout, Width.layout, isFirst, isSecond]
      rfl
  · split
    · rename_i isMark
      rw [isMark]
      exact comes_whole .thirtyTwo 0x80 4 (by decide) fun _ => rfl
    · split
      · rename_i isMark
        rw [isMark]
        exact comes_whole .sixtyFour 0x81 8 (by decide) fun _ => rfl
      · exact .fail fun _ => ⟨_, rfl⟩
  · rename_i notSix notFourteen notWhole
    have last : (first >>> 6).toNat = 3 := by
      have : (first >>> 6).toNat ≠ 0 := notSix
      have : (first >>> 6).toNat ≠ 1 := notFourteen
      have : (first >>> 6).toNat ≠ 2 := notWhole
      omega
    exact .pure ⟨first, by omega, by omega, rfl⟩

theorem comes_context {α : Type} {read : Reading α} {laidOut : α → Bytes → Prop}
    (comes : Comes read laidOut Refused) (about : Refusal → Refusal) :
    Comes (context about read) laidOut Refused := by
  intro before rest
  rcases comes before rest with
    ⟨value, layout, behind, isLaidOut, isRest, isRead⟩ | ⟨_, ⟨refusal, rfl⟩, isRead⟩
  · exact .inl ⟨value, layout, behind, isLaidOut, isRest, by rw [context, isRead]⟩
  · exact .inr ⟨_, ⟨about refusal, rfl⟩, by rw [context, isRead]⟩

theorem comes_count :
    Comes count (fun number layout => ∃ count : Count, count.value = number ∧
      layout = count.layout) Refused := by
  refine comes_length.bind ?_ fun _ _ => id
  rintro (number | how) front isLaidOut
  · obtain ⟨count, isValue, rfl⟩ := isLaidOut
    exact .pure ⟨count, isValue, List.append_nil _⟩
  · exact .fail fun _ => ⟨_, rfl⟩

/-! ## Strings -/

/-- A squeezed string, all of it there, that claims to let out to more than any vector
holds. -/
def Overlong (bytes : Bytes) : Prop :=
  ∃ (stored unpacked : Count) (squeezed behind : Bytes), squeezed.length = stored.value ∧
    maxCapacity < unpacked.value ∧
    bytes = [0xC3] ++ (stored.layout ++ (unpacked.layout ++ squeezed)) ++ behind

/-- A reading of strings is turned down, or panics at one of them. -/
def Bursts (failure : Failure) (bytes : Bytes) : Prop :=
  Refused failure bytes ∨ failure = .panicked ∧ Overlong bytes

theorem comes_unsqueeze (squeezed : Bytes) (unpacked : Nat) :
    Comes (fun reader => (unsqueeze squeezed unpacked).map fun bytes => (bytes, reader))
      (fun _ layout => layout = [] ∧ ∃ steps, Lzf.Proper [] steps ∧ squeezed = Lzf.layout steps ∧
        (Lzf.written [] steps).length = unpacked ∧ unpacked ≤ maxCapacity)
      fun failure rest => Refused failure rest ∨ failure = .panicked ∧ maxCapacity < unpacked := by
  intro before rest
  by_cases large : maxCapacity < unpacked
  · refine .inr ⟨_, .inr ⟨rfl, large⟩, ?_⟩
    rw [unsqueeze_large squeezed large]
    rfl
  · rcases unsqueezeAll_cases squeezed [] _ le_rfl with
      ⟨steps, proper, isLayout, wrote⟩ | ⟨refusal, refused⟩
    · have isRead : unsqueeze squeezed unpacked =
          if (Lzf.written [] steps).length = unpacked then .ok (Lzf.written [] steps)
          else .error (.refused (.letOutTo (Lzf.written [] steps).length unpacked)) := by
        rw [unsqueeze_small squeezed (Nat.le_of_not_lt large), letOut, wrote]
      by_cases isLength : (Lzf.written [] steps).length = unpacked
      · refine .inl ⟨Lzf.written [] steps, [], rest,
          ⟨rfl, steps, proper, isLayout, isLength, Nat.le_of_not_lt large⟩, rfl, ?_⟩
        rw [isRead, if_pos isLength]
        rfl
      · refine .inr ⟨_, .inl ⟨.letOutTo (Lzf.written [] steps).length unpacked, rfl⟩, ?_⟩
        rw [isRead, if_neg isLength]
        rfl
    · refine .inr ⟨_, .inl ⟨refusal, rfl⟩, ?_⟩
      rw [unsqueeze_small squeezed (Nat.le_of_not_lt large), letOut, refused]
      rfl

/-- A squeezed string, the mark that opens it already read. -/
theorem comes_squeezed :
    Comes readSqueezed (fun _ back => ∃ stored : Stored, [0xC3] ++ back = stored.layout)
      fun failure behind => Bursts failure ([0xC3] ++ behind) := by
  refine (comes_context comes_count _).bind ?_ fun _ _ => .inl
  rintro _ _ ⟨stored, rfl, rfl⟩
  refine (comes_context comes_count _).bind ?_ fun _ _ => .inl
  rintro _ _ ⟨unpacked, rfl, rfl⟩
  refine (comes_take stored.value).bind ?_ fun _ _ => .inl
  rintro squeezed _ ⟨rfl, isStored⟩
  refine (comes_unsqueeze squeezed unpacked.value).mono ?_ ?_
  · rintro _ _ ⟨rfl, steps, proper, rfl, isUnpacked, room⟩
    have storedFits := stored.fits
    have unpackedFits := unpacked.fits
    refine ⟨.squeezed stored.width unpacked.width steps proper (by omega) (by omega) (by omega), ?_⟩
    rw [Stored.layout, isStored, isUnpacked, List.append_nil]
    rfl
  · rintro failure behind (refused | ⟨rfl, large⟩)
    · exact .inl refused
    · refine .inr ⟨rfl, stored, unpacked, squeezed, behind, isStored, large, ?_⟩
      simp

/-- A number stored in the place of the string that spells it. -/
theorem comes_packed (packing : Packing) :
    Comes (take packing.bytes >>= fun bytes => pure (spelled (ofLeSigned bytes)) : Reading Bytes)
      (fun _ back => ∃ stored : Stored, [packing.mark] ++ back = stored.layout)
      fun failure behind => Bursts failure ([packing.mark] ++ behind) := by
  refine (comes_take packing.bytes).bind ?_ fun _ _ => .inl
  rintro bytes _ ⟨rfl, isWidth⟩
  have bounds := ofLeSigned_bounds bytes
  have spells := leBytesSigned_ofLeSigned bytes
  rw [isWidth] at bounds spells
  refine .pure ⟨.packed packing (ofLeSigned bytes) bounds.1 bounds.2, ?_⟩
  rw [Stored.layout, spells, List.append_nil]
  rfl

/-- Reading a string gives one that is stored in one of its ways, or is refused, or panics
at one that claims to be too long. -/
theorem comes_string :
    Comes readString (fun _ layout => ∃ stored : Stored, layout = stored.layout) Bursts := by
  refine comes_length.bind ?_ fun _ _ => .inl
  rintro (number | how) front isLaidOut
  · obtain ⟨count, rfl, rfl⟩ := isLaidOut
    refine (comes_take count.value).mono ?_ fun _ _ => .inl
    rintro bytes _ ⟨rfl, isLength⟩
    have fits := count.fits
    refine ⟨.own count.width bytes (by omega), ?_⟩
    rw [Stored.layout, isLength, Count.layout]
  · obtain ⟨mark, isMark, small, rfl⟩ := isLaidOut
    have marked (whole : UInt8) {packed : UInt8} (same : how = packed)
        (isWhole : whole.toNat = 192 + packed.toNat) : mark = whole := by
      apply UInt8.toNat_inj.mp
      rw [isMark, isWhole, same]
    dsimp only
    split
    · rename_i same
      rw [marked 0xC0 same rfl]
      exact comes_packed .i8
    · split
      · rename_i same
        rw [marked 0xC1 same rfl]
        exact comes_packed .i16
      · split
        · rename_i same
          rw [marked 0xC2 same rfl]
          exact comes_packed .i32
        · split
          · rename_i same
            rw [marked 0xC3 same rfl]
            exact comes_squeezed
          · exact .fail fun _ => .inl ⟨_, rfl⟩

/-! ## Sections -/

/-- How far a section may have been read when a string of it is come to. -/
inductive Opening where
  | auxiliary
  | auxiliaryName (name : Stored)
  | string
  | stringKey (key : Stored)

def Opening.layout : Opening → Bytes
  | .auxiliary => [Rdb.auxiliary]
  | .auxiliaryName name => [Rdb.auxiliary] ++ name.layout
  | .string => [Rdb.string]
  | .stringKey key => [Rdb.string] ++ key.layout

/-- What a turn of the loop has read: a whole section, or the mark of the end. -/
def TurnRead : Option Gathering → Bytes → Prop
  | none, layout => layout = [ending]
  | some _, layout => ∃ here : Section, layout = here.layout

/-- A turn of the loop is turned down, or panics at a string of the section. -/
def TurnBursts (failure : Failure) (bytes : Bytes) : Prop :=
  Refused failure bytes ∨ failure = .panicked ∧
    ∃ (opening : Opening) (behind : Bytes), Overlong behind ∧ bytes = opening.layout ++ behind

theorem Bursts.turn {failure : Failure} {behind : Bytes} (bursts : Bursts failure behind)
    (opening : Opening) : TurnBursts failure (opening.layout ++ behind) := by
  rcases bursts with refused | ⟨panicked, overlong⟩
  · exact .inl refused
  · exact .inr ⟨panicked, opening, behind, overlong, rfl⟩

/-- Two strings, one behind the other, make up a section or burst in one of its openings. -/
theorem comes_strings (whole : Stored → Stored → Section) (first : Opening)
    (second : Stored → Opening) (gathered : Bytes → Bytes → Gathering)
    (isSecond : ∀ key, (second key).layout = first.layout ++ key.layout)
    (isWhole : ∀ key value,
      (whole key value).layout = first.layout ++ (key.layout ++ value.layout)) :
    Comes (do
        let key ← readString
        let value ← readString
        pure (some (gathered key value)) : Reading (Option Gathering))
      (fun result back => TurnRead result (first.layout ++ back))
      fun failure behind => TurnBursts failure (first.layout ++ behind) := by
  refine comes_string.bind ?_ fun failure rest bursts => bursts.turn first
  rintro key _ ⟨storedKey, rfl⟩
  refine comes_string.bind ?_ fun failure rest bursts => ?_
  · rintro value _ ⟨storedValue, rfl⟩
    exact .pure ⟨whole storedKey storedValue, by rw [isWhole, List.append_nil]⟩
  · have turned := bursts.turn (second storedKey)
    rwa [isSecond, List.append_assoc] at turned

/-- A time read from so many bytes is one the clock can stand for. -/
theorem timed_eq {span : Duration} (fits : span < 2 ^ 63 * 1000000000) :
    timed span = pure span := by
  have isTime : sinceEpoch span = some span := by
    rw [sinceEpoch, instantAdd, Nat.zero_add, if_pos fits]
  rw [timed, isTime]

theorem comes_turn (gathering : Gathering) :
    Comes (byte >>= readSection gathering) TurnRead TurnBursts := by
  refine comes_byte.bind ?_ fun _ _ => .inl
  rintro kind _ rfl
  unfold readSection
  split
  · rename_i isKind
    exact .pure (congrArg (fun kind => [kind]) isKind)
  split
  · rename_i isKind
    rw [isKind]
    exact comes_strings .auxiliary .auxiliary .auxiliaryName (fun _ _ => gathering)
      (fun _ => rfl) fun _ _ => rfl
  split
  · rename_i isKind
    rw [isKind]
    refine comes_count.bind ?_ fun _ _ => .inl
    rintro _ _ ⟨number, -, rfl⟩
    exact .pure ⟨.database number, by rw [List.append_nil]; rfl⟩
  split
  · rename_i isKind
    rw [isKind]
    refine comes_count.bind ?_ fun _ _ => .inl
    rintro _ _ ⟨keys, -, rfl⟩
    refine comes_count.bind ?_ fun _ _ => .inl
    rintro _ _ ⟨expiring, -, rfl⟩
    exact .pure ⟨.resize keys expiring, by rw [List.append_nil]; rfl⟩
  split
  · rename_i isKind
    rw [isKind]
    refine (comes_take 4).bind ?_ fun _ _ => .inl
    rintro bytes _ ⟨rfl, isWidth⟩
    have small := ofLe_lt bytes
    have spells := leBytes_ofLe bytes
    rw [isWidth] at small spells
    have fits : Duration.ofSeconds (ofLe bytes) < 2 ^ 63 * 1000000000 := by
      change ofLe bytes * 1000000000 < _
      omega
    have isSeconds : (UInt32.ofNat (ofLe bytes)).toNat = ofLe bytes :=
      UInt32.toNat_ofNat_of_lt' small
    rw [timed_eq fits, pure_bind]
    refine .pure ⟨.expiresAtSeconds (.ofNat (ofLe bytes)), ?_⟩
    rw [Section.layout, isSeconds, spells, List.append_nil]
  split
  · rename_i isKind
    rw [isKind]
    refine (comes_take 8).bind ?_ fun _ _ => .inl
    rintro bytes _ ⟨rfl, isWidth⟩
    have small := ofLe_lt bytes
    have spells := leBytes_ofLe bytes
    rw [isWidth] at small spells
    have fits : Duration.ofMillis (ofLe bytes) < 2 ^ 63 * 1000000000 := by
      change ofLe bytes * 1000000 < _
      omega
    have isMillis : (UInt64.ofNat (ofLe bytes)).toNat = ofLe bytes :=
      UInt64.toNat_ofNat_of_lt' small
    rw [timed_eq fits, pure_bind]
    refine .pure ⟨.expiresAtMilliseconds (.ofNat (ofLe bytes)), ?_⟩
    rw [Section.layout, isMillis, spells, List.append_nil]
  split
  · rename_i isKind
    rw [isKind]
    exact comes_strings .string .string .stringKey _ (fun _ => rfl) fun _ _ => rfl
  · exact .fail fun _ => .inl ⟨_, rfl⟩

/-- What all the sections read come to: they are laid out up to the mark of the end. -/
def SectionsRead (bytes : Bytes) : Prop :=
  ∃ sections : List Section, bytes = sections.flatMap Section.layout ++ [ending]

/-- Reading the sections is turned down, or panics at a string of the one behind some. -/
def SectionsBurst (failure : Failure) (bytes : Bytes) : Prop :=
  Refused failure bytes ∨ failure = .panicked ∧
    ∃ (sections : List Section) (opening : Opening) (behind : Bytes), Overlong behind ∧
      bytes = sections.flatMap Section.layout ++ (opening.layout ++ behind)

theorem readSections_succ (turns : Nat) (gathering : Gathering) :
    readSections (turns + 1) gathering =
      (byte >>= readSection gathering) >>= fun next =>
        match next with
        | none => pure gathering.records
        | some gathering => readSections turns gathering :=
  (bind_assoc _ _ _).symm

/-- With a turn for every byte left and one over, the loop ends well before it runs out. -/
theorem comesAt_sections (gathering : Gathering) (turns : Nat) (before rest : Bytes)
    (enough : rest.length < turns) :
    ComesAt (readSections turns gathering) (fun _ => SectionsRead) SectionsBurst before rest := by
  induction turns generalizing gathering before rest with
  | zero => omega
  | succ turns ih =>
    rw [readSections_succ]
    refine (comes_turn gathering before rest).bind ?_ ?_
    · rintro (_ | next) front behind isRead isRest
      · obtain rfl : front = [ending] := isRead
        exact Comes.pure ⟨[], rfl⟩ _ _
      · obtain ⟨here, rfl⟩ := isRead
        have shorter : behind.length < turns := by
          have longer := length_section_pos here
          rw [isRest, List.length_append] at enough
          omega
        refine (ih next (before ++ here.layout) behind shorter).mono ?_ ?_
        · rintro _ _ ⟨sections, rfl⟩
          exact ⟨here :: sections, by simp⟩
        · rintro failure (refused | ⟨panicked, sections, opening, last, overlong, rfl⟩)
          · exact .inl refused
          · exact .inr ⟨panicked, here :: sections, opening, last, overlong, by simp⟩
    · rintro failure (refused | ⟨panicked, opening, behind, overlong, isRest⟩)
      · exact .inl refused
      · exact .inr ⟨panicked, [], opening, behind, overlong, isRest⟩

/-! ## The whole file -/

/-- What every file that is read opens with. -/
def opensWith (version : UInt8 × UInt8 × UInt8 × UInt8) : Bytes :=
  magic ++ [version.1, version.2.1, version.2.2.1, version.2.2.2]

theorem comes_header :
    Comes header (fun _ layout => ∃ version, layout = opensWith version) Refused := by
  refine (comes_context (comes_take headerLength) _).bind ?_ fun _ _ => id
  rintro opening _ ⟨rfl, isLength⟩
  split
  · rename_i opens
    obtain ⟨version, rfl⟩ := List.isPrefixOf_iff_prefix.mp opens
    have four : version.length = 4 := by
      simpa [headerLength] using isLength
    match version, four with
    | [first, second, third, fourth], _ =>
      exact .pure ⟨(first, second, third, fourth), List.append_nil _⟩
  · exact .fail fun _ => ⟨_, rfl⟩

/-- A file that makes the reader panic: sections that can be read, then a section broken off
in front of a squeezed string that claims to let out to more than any vector holds. -/
def Bursting (file : Bytes) : Prop :=
  ∃ (version : UInt8 × UInt8 × UInt8 × UInt8) (sections : List Section) (opening : Opening)
    (behind : Bytes), Overlong behind ∧
    file = opensWith version ++ (sections.flatMap Section.layout ++ (opening.layout ++ behind))

/-- Reading any file ends: it is read, it is refused, or it is one that bursts. -/
theorem dataset_cases (file : Bytes) :
    (∃ records reader, dataset ⟨file, 0⟩ = .ok (records, reader)) ∨
      (∃ refusal, dataset ⟨file, 0⟩ = .error (.refused refusal)) ∨
      dataset ⟨file, 0⟩ = .error .panicked ∧ Bursting file := by
  have comes : ComesAt (header >>= fun _ => readSections (file.length + 1) {})
      (fun _ _ => True)
      (fun failure rest => Refused failure rest ∨ failure = .panicked ∧ Bursting rest) [] file := by
    refine (comes_header [] file).bind ?_ fun _ => .inl
    rintro _ _ behind ⟨version, rfl⟩ isFile
    have enough : behind.length < file.length + 1 := by
      rw [isFile, List.length_append]
      omega
    refine (comesAt_sections {} _ _ behind enough).mono (fun _ _ _ => True.intro) ?_
    rintro failure (refused | ⟨panicked, sections, opening, last, overlong, rfl⟩)
    · exact .inl refused
    · exact .inr ⟨panicked, version, sections, opening, last, overlong, rfl⟩
  rcases comes with ⟨records, layout, behind, -, -, isRead⟩ |
    ⟨failure, ⟨refusal, rfl⟩ | ⟨rfl, bursting⟩, isRead⟩
  · exact .inl ⟨records, _, isRead⟩
  · exact .inr (.inl ⟨refusal, isRead⟩)
  · exact .inr (.inr ⟨isRead, bursting⟩)

/-! ## Panics -/

/-- Reading a string that claims to be too long panics. -/
theorem fails_string {bytes : Bytes} (overlong : Overlong bytes) :
    ∃ layout behind, bytes = layout ++ behind ∧
      Fails maxCapacity readString layout .panicked := by
  obtain ⟨stored, unpacked, squeezed, behind, isStored, large, rfl⟩ := overlong
  refine ⟨_, behind, rfl, ?_⟩
  refine (undoes_mark 0xC3 rfl).bind_fails ?_
  refine (undoes_context (undoes_count stored) .squeezedLength).bind_fails ?_
  refine (undoes_context (undoes_count unpacked) .unsqueezedLength).bind_fails ?_
  rw [← isStored]
  refine (undoes_take squeezed).bind_fails_nil ?_
  intro before rest fits
  rw [unsqueeze_large squeezed large]
  rfl

/-- A section broken off in front of such a string panics. -/
theorem fails_opening (gathering : Gathering) (opening : Opening) {layout : Bytes}
    (fails : Fails maxCapacity readString layout .panicked) :
    ∃ kind fields, opening.layout ++ layout = [kind] ++ fields ∧
      Fails maxCapacity (readSection gathering kind) fields .panicked := by
  cases opening with
  | auxiliary => exact ⟨_, layout, rfl, fails.bind _⟩
  | auxiliaryName name =>
    exact ⟨_, name.layout ++ layout, rfl, (undoes_string name).bind_fails (fails.bind _)⟩
  | string => exact ⟨_, layout, rfl, fails.bind _⟩
  | stringKey key =>
    exact ⟨_, key.layout ++ layout, rfl, (undoes_string key).bind_fails (fails.bind _)⟩

theorem fails_sections {gathering : Gathering} {before : List Section}
    (after : gathering.After before) (sections : List Section) (opening : Opening)
    {layout : Bytes} (fails : Fails maxCapacity readString layout .panicked) {turns : Nat}
    (enough : sections.length < turns) :
    Fails maxCapacity (readSections turns gathering)
      (sections.flatMap Section.layout ++ (opening.layout ++ layout)) .panicked := by
  induction sections generalizing gathering before turns with
  | nil =>
    cases turns with
    | zero => omega
    | succ turns =>
      obtain ⟨kind, fields, isLayout, breaks⟩ := fails_opening gathering opening fails
      rw [List.flatMap_nil, List.nil_append, isLayout]
      exact (undoes_byte kind).bind_fails (breaks.bind _)
  | cons here sections ih =>
    cases turns with
    | zero => omega
    | succ turns =>
      obtain ⟨next, nextAfter, -, kind, fields, isLayout, undoes⟩ := undoes_section after here
      have whole : (here :: sections).flatMap Section.layout ++ (opening.layout ++ layout) =
          [kind] ++ (fields ++ (sections.flatMap Section.layout ++
            (opening.layout ++ layout))) := by
        simp [isLayout]
      rw [whole]
      refine (undoes_byte kind).bind_fails (undoes.bind_fails ?_)
      exact ih nextAfter (by simpa using enough)

theorem dataset_of_bursting {file : Bytes} (fits : file.length ≤ maxCapacity)
    (bursting : Bursting file) : dataset ⟨file, 0⟩ = .error .panicked := by
  obtain ⟨version, sections, opening, bytes, overlong, isFile⟩ := bursting
  obtain ⟨layout, behind, rfl, fails⟩ := fails_string overlong
  have enough : sections.length < file.length + 1 := by
    have shorter := length_le_flatMap_layout sections
    rw [isFile]
    simp only [List.length_append]
    omega
  have breaks : Fails maxCapacity (header >>= fun _ => readSections (file.length + 1) {})
      (opensWith version ++ (sections.flatMap Section.layout ++ (opening.layout ++ layout)))
      .panicked :=
    (undoes_header version).bind_fails
      (fails_sections (⟨rfl, rfl⟩ : Gathering.After {} []) sections opening fails enough)
  have whole : [] ++ (opensWith version ++ (sections.flatMap Section.layout ++
      (opening.layout ++ layout))) ++ behind = file := by
    rw [isFile]
    simp
  have isRead := breaks [] behind (whole ▸ fits)
  rw [whole] at isRead
  exact isRead

/-- Reading a file ends well or in a refusal just when the file does not burst. -/
theorem dataset_ends_iff (file : Bytes) (fits : file.length ≤ maxCapacity) :
    ((∃ records reader, dataset ⟨file, 0⟩ = .ok (records, reader)) ∨
      ∃ refusal, dataset ⟨file, 0⟩ = .error (.refused refusal)) ↔ ¬ Bursting file := by
  constructor
  · intro ends bursting
    have panics := dataset_of_bursting fits bursting
    rcases ends with ⟨records, reader, isRead⟩ | ⟨refusal, isRead⟩
    · cases panics.symm.trans isRead
    · cases panics.symm.trans isRead
  · intro whole
    rcases dataset_cases file with read | refused | ⟨-, bursting⟩
    · exact .inl read
    · exact .inr refused
    · exact absurd bursting whole

/-- The file of `savedSections` is read, and one that breaks off inside its squeezed
string is refused: neither of them bursts. -/
theorem dataset_ends_saved :
    let file := fileOf (48, 48, 49, 49) savedSections [1, 2, 3]
    (¬ Bursting file ∧ ∃ records reader, dataset ⟨file, 0⟩ = .ok (records, reader)) ∧
      ¬ Bursting (file.take 54) ∧
        ∃ refusal, dataset ⟨file.take 54, 0⟩ = .error (.refused refusal) := by
  intro file
  have isOk : (dataset ⟨file, 0⟩).isOk = true := by decide +kernel
  have isRefused : (dataset ⟨file.take 54, 0⟩).toBool = false ∧
      (dataset ⟨file.take 54, 0⟩).map Prod.fst ≠ .error .panicked := by decide +kernel
  have whole : ¬ Bursting file := fun bursting => by
    rw [dataset_of_bursting (by decide) bursting] at isOk
    cases isOk
  have cut : ¬ Bursting (file.take 54) := fun bursting => by
    rw [dataset_of_bursting (by decide) bursting] at isRefused
    exact isRefused.2 rfl
  refine ⟨⟨whole, ?_⟩, cut, ?_⟩
  · rcases (dataset_ends_iff file (by decide)).mpr whole with read | ⟨refusal, refused⟩
    · exact read
    · rw [refused] at isOk
      cases isOk
  · rcases (dataset_ends_iff (file.take 54) (by decide)).mpr cut with ⟨_, _, read⟩ | refused
    · rw [read] at isRefused
      cases isRefused.1
    · exact refused

/-- A file of one key, the key squeezed to nothing and said to let out to `2 ^ 63` bytes. -/
def burstingFile : Bytes :=
  utf8 "REDIS0011" ++ [0x00, 0xC3, 0x00, 0x81, 0x80, 0, 0, 0, 0, 0, 0, 0]

theorem bursting_file_panics : dataset ⟨burstingFile, 0⟩ = .error .panicked := by
  rfl

end RedisServer.Rdb
