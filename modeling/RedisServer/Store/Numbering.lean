import RedisServer.Store.Invariant

/-!
# The ids `XADD` gives

An id may be appended under when it is above `0-0` and above the last one.  One named in
full is taken exactly then; one named by its millisecond takes the smallest of those the
millisecond has.  An id left to the server in full stays in the millisecond of the last
entry when the clock is not past it, and is refused when that millisecond has run out of
sequence numbers, although the next one has not.
-/

namespace RedisServer

/-- Whether an entry may be appended under an id, given the last one. -/
def EntryId.Above (top : Option EntryId) (id : EntryId) : Prop :=
  EntryId.zero < id ∧ ∀ last ∈ top, last < id

/-- The millisecond an id left to the server falls in has no sequence number left. -/
def EntryId.spent (unix : UInt64) (top : Option EntryId) : Bool :=
  top.any fun last => last.sequence = UInt64.ofNat u64Max ∧ unix ≤ last.milliseconds

namespace EntryId

/-- The first id of a millisecond. -/
def firstOf (milliseconds : UInt64) : EntryId := ⟨milliseconds, if milliseconds = 0 then 1 else 0⟩

theorem zero_lt_firstOf (milliseconds : UInt64) : zero < firstOf milliseconds := by
  rw [lt_iff, firstOf]
  by_cases isZero : milliseconds = 0
  · subst isZero
    exact .inr ⟨rfl, by decide⟩
  · exact .inl (UInt64.pos_iff_ne_zero.mpr isZero)

theorem firstOf_le {id : EntryId} (positive : zero < id) : firstOf id.milliseconds ≤ id := by
  rw [le_iff_rank, rank, rank, firstOf]
  rw [lt_iff_rank, rank, rank] at positive
  split
  · rename_i isZero
    rw [isZero] at positive
    have one : (1 : UInt64).toNat = 1 := rfl
    simp only [zero, UInt64.toNat_zero] at positive
    simp only [one]
    omega
  · simp

/-- The id after another in the same millisecond. -/
def after (last : EntryId) : EntryId := ⟨last.milliseconds, last.sequence + 1⟩

theorem rank_after {last : EntryId} (room : last.sequence ≠ UInt64.ofNat u64Max) :
    last.after.rank = last.rank + 1 := by
  have small : last.sequence.toNat + 1 < 2 ^ 64 := by
    have fits := last.sequence.toNat_lt
    by_contra large
    refine room (UInt64.toNat_inj.mp ?_)
    have top : (UInt64.ofNat u64Max).toNat = 2 ^ 64 - 1 := rfl
    omega
  have next : (last.sequence + 1).toNat = last.sequence.toNat + 1 := by
    rw [UInt64.toNat_add]
    exact Nat.mod_eq_of_lt small
  simp only [rank, after, next]
  omega

theorem lt_of_sequence {last id : EntryId} (spent : last.sequence = UInt64.ofNat u64Max)
    (above : last < id) : last.milliseconds < id.milliseconds := by
  rcases (lt_iff last id).mp above with later | ⟨-, larger⟩
  · exact later
  · rw [spent, UInt64.lt_iff_toNat_lt] at larger
    have fits := id.sequence.toNat_lt
    have top : (UInt64.ofNat u64Max).toNat = 2 ^ 64 - 1 := rfl
    omega

end EntryId

/-! ## Filling in the id -/

/-- The ids of one millisecond that may be appended under. -/
def openIds (top : Option EntryId) (milliseconds : UInt64) : Set EntryId :=
  { id | id.milliseconds = milliseconds ∧ id.Above top }

/-- An id whose sequence number is left to the server is the smallest there is. -/
theorem next_spec (top : Option EntryId) (milliseconds : UInt64) :
    (∃ id, resolve.next top milliseconds = .ok id ∧
        (top.any (fun last => id ≤ last) = false → IsLeast (openIds top milliseconds) id) ∧
        (top.any (fun last => id ≤ last) = true → openIds top milliseconds = ∅)) ∨
      (resolve.next top milliseconds = .error .notAboveTop ∧ openIds top milliseconds = ∅) := by
  have firstLeast (above : ∀ last ∈ top, last < EntryId.firstOf milliseconds) :
      IsLeast (openIds top milliseconds) (EntryId.firstOf milliseconds) := by
    refine ⟨⟨rfl, EntryId.zero_lt_firstOf milliseconds, above⟩, ?_⟩
    rintro id ⟨rfl, positive, -⟩
    exact EntryId.firstOf_le positive
  cases top with
  | none => exact .inl ⟨_, rfl, fun _ => firstLeast (by simp), by simp⟩
  | some last =>
    simp only [resolve.next]
    by_cases same : last.milliseconds = milliseconds
    · subst same
      rw [if_pos rfl]
      by_cases spent : last.sequence = UInt64.ofNat u64Max
      · rw [if_pos spent]
        refine .inr ⟨rfl, Set.eq_empty_iff_forall_notMem.mpr ?_⟩
        rintro id ⟨sameTime, -, above⟩
        have later := EntryId.lt_of_sequence spent (above last rfl)
        rw [sameTime] at later
        exact absurd later (UInt64.lt_irrefl _)
      · rw [if_neg spent]
        have next := EntryId.rank_after spent
        have larger : last < last.after := by
          rw [EntryId.lt_iff_rank, next]
          exact Nat.lt_succ_self _
        refine .inl ⟨_, rfl, fun _ => ⟨⟨rfl, ?_, ?_⟩, ?_⟩, fun below => ?_⟩
        · rw [EntryId.lt_iff_rank]
          exact (Nat.zero_le _).trans_lt ((EntryId.lt_iff_rank _ _).mp larger)
        · intro other isLast
          cases isLast
          exact larger
        · rintro id ⟨-, -, above⟩
          have past := (EntryId.lt_iff_rank _ _).mp (above last rfl)
          exact (EntryId.le_iff_rank _ _).mpr (next.trans_le past)
        · have notAbove : last.after ≤ last := by simpa [EntryId.after] using below
          exact absurd larger (not_lt.mpr notAbove)
    · rw [if_neg same]
      refine .inl ⟨EntryId.firstOf milliseconds, rfl, fun above => firstLeast ?_, fun below => ?_⟩
      · simpa using above
      · -- the last entry is in a later millisecond
        refine Set.eq_empty_iff_forall_notMem.mpr ?_
        rintro id ⟨rfl, positive, above⟩
        have notAbove : EntryId.firstOf id.milliseconds ≤ last := by simpa using below
        have past := above last rfl
        rcases (EntryId.lt_iff last id).mp past with earlier | ⟨sameTime, -⟩
        · have before : last < EntryId.firstOf id.milliseconds :=
            (EntryId.lt_iff _ _).mpr (.inl earlier)
          exact absurd before (not_lt.mpr notAbove)
        · exact same sameTime

/-! ## What `XADD` answers -/

namespace State

variable {state : State} {clock : Clock} {key : Bytes} {fields : List (Bytes × Bytes)}
  {stream : List StreamEntry}

/-- What `XADD` answers on a key that holds a stream or nothing. -/
theorem xadd_reply (held : Cell.stream ((state.live clock.now key).map Entry.cell) = .ok stream)
    (requested : RequestedId) :
    (state.xadd clock.now clock.unix key requested fields).2 =
      if xadd.belowZero requested then .error .notAboveZero
      else (Cell.append clock.unix requested fields stream).map Prod.fst := by
  obtain ⟨cell, acted, -⟩ := (@xadd_acts clock state key requested fields).cell
  simp only [KeyOp.act, Option.some.injEq, Prod.ext_iff] at acted
  rw [← acted.2]
  unfold Cell.xadd
  split
  · rfl
  · rcases found : (state.live clock.now key).map Entry.cell with
      _ | ⟨_ | _ | entries | _, expiresAt⟩ <;>
      rw [found] at held <;> cases held
    · dsimp only
      cases Cell.append clock.unix requested fields [] <;> rfl
    · dsimp only
      cases Cell.append clock.unix requested fields stream <;> rfl

/-- The id answered with, once it has been filled in. -/
def answered (top : Option EntryId) : Except XaddError EntryId → Except XaddError EntryId
  | .error error => .error error
  | .ok id => if top.any fun last => id ≤ last then .error .notAboveTop else .ok id

theorem append_map_fst (unix : UInt64) (requested : RequestedId) :
    (Cell.append unix requested fields stream).map Prod.fst =
      answered (stream.getLast?.map StreamEntry.id)
        (resolve unix requested (stream.getLast?.map StreamEntry.id)) := by
  simp only [Cell.append]
  rcases resolve unix requested (stream.getLast?.map StreamEntry.id) with error | id
  · rfl
  · simp only [answered]
    split <;> rfl

/-- An id whose sequence number is left to the server is answered with when its millisecond
has one left, and is then the smallest of them. -/
theorem answered_next (top : Option EntryId) (milliseconds : UInt64) :
    ((∃ id, answered top (resolve.next top milliseconds) = .ok id) ↔
        (openIds top milliseconds).Nonempty) ∧
      ∀ id, answered top (resolve.next top milliseconds) = .ok id →
        IsLeast (openIds top milliseconds) id := by
  rcases next_spec top milliseconds with ⟨id, filled, least, none⟩ | ⟨refused, none⟩
  · rw [filled, answered]
    by_cases below : top.any (fun last => id ≤ last) = true
    · rw [if_pos below, none below]
      exact ⟨iff_of_false (by simp) Set.not_nonempty_empty, by simp⟩
    · have isLeast := least (by simpa using below)
      rw [if_neg below]
      refine ⟨iff_of_true ⟨id, rfl⟩ ⟨id, isLeast.1⟩, fun other same => ?_⟩
      cases same
      exact isLeast
  · rw [refused, answered, none]
    exact ⟨iff_of_false (by simp) Set.not_nonempty_empty, by simp⟩

/-- The millisecond an id left to the server falls in. -/
def autoMilliseconds (unix : UInt64) : Option EntryId → UInt64
  | none => unix
  | some last => if unix < last.milliseconds then last.milliseconds else unix

theorem resolve_auto (unix : UInt64) (top : Option EntryId) :
    resolve unix .auto top = resolve.next top (autoMilliseconds unix top) := by
  cases top <;> rfl

/-- That millisecond has an id left unless it is that of the last entry and has run out. -/
theorem openIds_auto (unix : UInt64) (top : Option EntryId) :
    (openIds top (autoMilliseconds unix top)).Nonempty ↔ EntryId.spent unix top = false := by
  cases top with
  | none =>
    refine iff_of_true ⟨EntryId.firstOf unix, rfl, EntryId.zero_lt_firstOf unix, ?_⟩ rfl
    simp
  | some last =>
    simp only [EntryId.spent, Option.any_some, decide_eq_false_iff_not, autoMilliseconds]
    by_cases later : last.milliseconds < unix
    · have notBefore : ¬ unix < last.milliseconds := UInt64.lt_asymm later
      rw [if_neg notBefore]
      refine iff_of_true ⟨EntryId.firstOf unix, rfl, EntryId.zero_lt_firstOf unix, ?_⟩ ?_
      · intro other isLast
        cases isLast
        exact (EntryId.lt_iff _ _).mpr (.inl later)
      · exact fun spent => absurd later (UInt64.not_lt.mpr spent.2)
    · have notLater : unix ≤ last.milliseconds := UInt64.not_lt.mp later
      have same : (if unix < last.milliseconds then last.milliseconds else unix) =
          last.milliseconds := by
        split
        · rfl
        · rename_i notBefore
          exact UInt64.le_antisymm notLater (UInt64.not_lt.mp notBefore)
      rw [same]
      constructor
      · rintro ⟨id, sameTime, -, above⟩ ⟨spent, -⟩
        have past := EntryId.lt_of_sequence spent (above last rfl)
        rw [sameTime] at past
        exact UInt64.lt_irrefl _ past
      · intro room
        have next := EntryId.rank_after fun spent => room ⟨spent, notLater⟩
        have larger : last < last.after := by
          rw [EntryId.lt_iff_rank, next]
          exact Nat.lt_succ_self _
        refine ⟨last.after, rfl, ?_, ?_⟩
        · rw [EntryId.lt_iff_rank]
          exact (Nat.zero_le _).trans_lt ((EntryId.lt_iff_rank _ _).mp larger)
        · intro other isLast
          cases isLast
          exact larger

/-- Which ids `XADD` gives, on a key that holds a stream or nothing: an id left to the server
in full is given, and is above both `0-0` and the last, just when the millisecond of the
last entry has not run out by the clock; one left in part is the smallest of its
millisecond that is above both; one named in full is taken when it is above both. -/
theorem xadd_ids_iff (state : State) (clock : Clock) (key : Bytes) (fields : List (Bytes × Bytes))
    (stream : List StreamEntry)
    (held : Cell.stream ((state.live clock.now key).map Entry.cell) = .ok stream)
    (top : Option EntryId) (isTop : stream.getLast?.map StreamEntry.id = top) :
    ((∃ id, (state.xadd clock.now clock.unix key .auto fields).2 = .ok id ∧ id.Above top) ↔
      EntryId.spent clock.unix top = false) ∧
    (∀ milliseconds,
      ((∃ id,
        (state.xadd clock.now clock.unix key (.autoSequence milliseconds) fields).2 = .ok id) ↔
          (openIds top milliseconds).Nonempty) ∧
        ∀ id, (state.xadd clock.now clock.unix key (.autoSequence milliseconds) fields).2 = .ok id →
          IsLeast (openIds top milliseconds) id) ∧
    ∀ id, ((state.xadd clock.now clock.unix key (.explicit id) fields).2 = .ok id ↔ id.Above top) ∧
      ∀ other, (state.xadd clock.now clock.unix key (.explicit id) fields).2 = .ok other →
        other = id := by
  have replied := @xadd_reply state clock key fields stream held
  simp only [append_map_fst, isTop] at replied
  refine ⟨?_, fun milliseconds => ?_, fun id => ?_⟩
  · rw [replied, resolve_auto]
    obtain ⟨given, least⟩ := answered_next top (autoMilliseconds clock.unix top)
    rw [← openIds_auto, ← given]
    simp only [xadd.belowZero, Bool.false_eq_true, if_false]
    constructor
    · rintro ⟨id, isGiven, -⟩
      exact ⟨id, isGiven⟩
    · rintro ⟨id, isGiven⟩
      exact ⟨id, isGiven, (least id isGiven).1.2⟩
  · rw [replied]
    exact answered_next top milliseconds
  · rw [replied]
    simp only [xadd.belowZero, resolve, answered, decide_eq_true_eq]
    have above : id.Above top ↔ ¬ id ≤ EntryId.zero ∧ ¬ top.any (fun last => id ≤ last) = true := by
      rw [EntryId.Above, not_le]
      cases top <;> simp
    rw [above]
    by_cases below : id ≤ EntryId.zero
    · simp [below]
    · by_cases notAbove : top.any (fun last => id ≤ last) = true
      · simp [below, notAbove]
      · simp [below, notAbove]

end State

/-- A store with a stream whose last entry has the last id of its millisecond. -/
def State.holdingSpent : State :=
  { entries := (∅ : Entries).insert [1]
      (Entry.new (.stream [⟨⟨5, UInt64.ofNat u64Max⟩, []⟩]) 0) }

theorem State.xadd_ids_later :
    ∃ id, (State.holdingSpent.xadd 0 6 [1] .auto []).2 = .ok id ∧
      id.Above (some ⟨5, UInt64.ofNat u64Max⟩) :=
  (State.xadd_ids_iff .holdingSpent ⟨0, 6⟩ [1] [] _ rfl _ rfl).1.mpr (by decide)

/-- With the clock at that millisecond, `XADD key *` is refused although `6-0` is free. -/
theorem State.xadd_auto_refused :
    (State.holdingSpent.xadd 0 5 [1] .auto []).2 = .error .notAboveTop ∧
      (State.holdingSpent.xadd 0 5 [1] (.explicit ⟨6, 0⟩) []).2 = .ok ⟨6, 0⟩ :=
  ⟨rfl, rfl⟩

/-! ## Spelling -/

/-- A text is split where the separator first stands. -/
theorem splitOnce_of_notMem {separator : Char} {before after : List Char}
    (absent : separator ∉ before) :
    splitOnce separator (String.ofList (before ++ separator :: after)) =
      some (String.ofList before, String.ofList after) := by
  have others : ∀ char ∈ before, (char ≠ separator) = true := by
    intro char member
    simp only [ne_eq, eq_iff_iff, iff_true]
    rintro rfl
    exact absent member
  simp only [splitOnce, String.toList_ofList, List.span_eq_takeWhile_dropWhile]
  rw [List.takeWhile_append_of_pos (by simpa using others),
    List.dropWhile_append_of_pos (by simpa using others)]
  simp

theorem parseHalf_toString (half : UInt64) : parseHalf (toString half.toNat) = some half := by
  have fits : half.toNat ≤ u64Max := Nat.le_of_lt_succ half.toNat_lt
  rw [parseHalf, parseU64, parseUnsigned_toString fits]
  simp [Except.toOption]

theorem EntryId.splitOnce_toText (id : EntryId) :
    splitOnce '-' id.toText =
      some (toString id.milliseconds.toNat, toString id.sequence.toNat) := by
  have noDash : '-' ∉ (toString id.milliseconds.toNat).toList := by
    intro member
    have digit := toDigits_isDigit id.milliseconds.toNat '-' (by simpa using member)
    exact absurd digit (by decide)
  have spelled : id.toText = String.ofList ((toString id.milliseconds.toNat).toList ++
      '-' :: (toString id.sequence.toNat).toList) := by
    apply String.toList_inj.mp
    simp [EntryId.toText]
  rw [spelled, splitOnce_of_notMem noDash, String.ofList_toList, String.ofList_toList]

/-- An id is read back from its own spelling. -/
theorem EntryId.fromStr_toText (id : EntryId) :
    RequestedId.fromStr id.toText = some (.explicit id) := by
  have notStar : id.toText ≠ "*" := by
    intro isStar
    have noDash := id.splitOnce_toText
    rw [isStar] at noDash
    cases noDash
  have notOpen : toString id.sequence.toNat ≠ "*" := by
    intro isStar
    have read := parseHalf_toString id.sequence
    rw [isStar] at read
    cases read
  rw [RequestedId.fromStr, if_neg notStar, id.splitOnce_toText]
  simp only [parseHalf_toString, if_neg notOpen, Option.map_some]

end RedisServer
