import RedisServer.Text

/-!
# Stream entry ids

An id is a millisecond timestamp and a sequence number that orders the entries
recorded within the same millisecond.  A client names the id of a new entry in
full, leaves the sequence number to the server, or leaves the server both.
-/

namespace RedisServer

/-- The identifier of a stream entry. -/
structure EntryId where
  milliseconds : UInt64
  sequence : UInt64
  deriving DecidableEq, Repr

namespace EntryId

/-- The lower bound every id has to beat; `0-1` is the smallest valid id. -/
def zero : EntryId := ⟨0, 0⟩

/-- The largest id there is. -/
def max : EntryId := ⟨UInt64.ofNat u64Max, UInt64.ofNat u64Max⟩

/-- The timestamps are compared first, and the sequence numbers break a tie. -/
instance : LT EntryId where
  lt left right := left.milliseconds < right.milliseconds ∨
    (left.milliseconds = right.milliseconds ∧ left.sequence < right.sequence)

instance : LE EntryId where
  le left right := left.milliseconds < right.milliseconds ∨
    (left.milliseconds = right.milliseconds ∧ left.sequence ≤ right.sequence)

instance (left right : EntryId) : Decidable (left < right) :=
  inferInstanceAs (Decidable (_ ∨ _))

instance (left right : EntryId) : Decidable (left ≤ right) :=
  inferInstanceAs (Decidable (_ ∨ _))

theorem lt_iff (left right : EntryId) : left < right ↔
    left.milliseconds < right.milliseconds ∨
      (left.milliseconds = right.milliseconds ∧ left.sequence < right.sequence) :=
  Iff.rfl

/-- The number of ids below this one. -/
def rank (id : EntryId) : Nat := id.milliseconds.toNat * 2 ^ 64 + id.sequence.toNat

theorem lt_iff_rank (left right : EntryId) : left < right ↔ left.rank < right.rank := by
  have leftFits := left.sequence.toNat_lt
  have rightFits := right.sequence.toNat_lt
  change _ ∨ _ ↔ _
  rw [UInt64.lt_iff_toNat_lt, UInt64.lt_iff_toNat_lt, ← UInt64.toNat_inj]
  simp only [rank]
  omega

theorem le_iff_rank (left right : EntryId) : left ≤ right ↔ left.rank ≤ right.rank := by
  have leftFits := left.sequence.toNat_lt
  have rightFits := right.sequence.toNat_lt
  change _ ∨ _ ↔ _
  rw [UInt64.lt_iff_toNat_lt, UInt64.le_iff_toNat_le, ← UInt64.toNat_inj]
  simp only [rank]
  omega

theorem rank_injective : Function.Injective rank := by
  intro left right equal
  have leftFits := left.sequence.toNat_lt
  have rightFits := right.sequence.toNat_lt
  simp only [rank] at equal
  obtain ⟨milliseconds, sequence⟩ := left
  obtain ⟨milliseconds', sequence'⟩ := right
  simp only [EntryId.mk.injEq, ← UInt64.toNat_inj] at *
  omega

instance : LinearOrder EntryId where
  le_refl id := (le_iff_rank id id).mpr le_rfl
  le_trans _ _ _ first second := by
    rw [le_iff_rank] at *
    exact first.trans second
  lt_iff_le_not_ge _ _ := by
    rw [lt_iff_rank, le_iff_rank, le_iff_rank]
    omega
  le_antisymm _ _ first second := by
    rw [le_iff_rank] at first second
    exact rank_injective (le_antisymm first second)
  le_total _ _ := by
    simp only [le_iff_rank]
    omega
  toDecidableLE := inferInstance

/-- How an id is spelled. -/
def toText (id : EntryId) : String :=
  toString id.milliseconds.toNat ++ "-" ++ toString id.sequence.toNat

end EntryId

/-- The id an `XADD` asked for, which may leave part of it to the server. -/
inductive RequestedId where
  | explicit (id : EntryId)
  | autoSequence (milliseconds : UInt64)
  | auto
  deriving DecidableEq, Repr

/-- The text before and after the first occurrence of a character. -/
def splitOnce (separator : Char) (text : String) : Option (String × String) :=
  match text.toList.span (· ≠ separator) with
  | (_, []) => none
  | (before, _ :: after) => some (String.ofList before, String.ofList after)

/-- Half of an id. -/
def parseHalf (text : String) : Option UInt64 := (parseU64 text).map UInt64.ofNat

/-- Ids arrive as `<milliseconds>-<sequence>`, where the sequence number may be
`*`, or as a bare `*`. -/
def RequestedId.fromStr (id : String) : Option RequestedId :=
  if id = "*" then some .auto
  else
    match splitOnce '-' id with
    | none => none
    | some (milliseconds, sequence) =>
      match parseHalf milliseconds with
      | none => none
      | some milliseconds =>
        if sequence = "*" then some (.autoSequence milliseconds)
        else
          (parseHalf sequence).map fun sequence => .explicit ⟨milliseconds, sequence⟩

/-- One entry of a stream: an id and the fields recorded under it. -/
structure StreamEntry where
  id : EntryId
  fields : List (Bytes × Bytes)
  deriving DecidableEq, Repr

/-- Why an `XADD` was refused. -/
inductive XaddError where
  | wrongType
  | notAboveZero
  | notAboveTop
  deriving DecidableEq, Repr

/-- Fills in the parts of the id that were left to the server, given the wall
clock in milliseconds and the id of the stream's last entry.  A sequence number
that has run out of room is refused. -/
def resolve (unix : UInt64) (requested : RequestedId) (top : Option EntryId) :
    Except XaddError EntryId :=
  match requested with
  | .explicit id => .ok id
  | .autoSequence milliseconds => next milliseconds
  | .auto =>
    next (match top with
      | none => unix
      | some top => if unix < top.milliseconds then top.milliseconds else unix)
where
  next (milliseconds : UInt64) : Except XaddError EntryId :=
    match top with
    | some top =>
      if top.milliseconds = milliseconds then
        if top.sequence = UInt64.ofNat u64Max then .error .notAboveTop
        else .ok ⟨milliseconds, top.sequence + 1⟩
      else .ok ⟨milliseconds, if milliseconds = 0 then 1 else 0⟩
    | none => .ok ⟨milliseconds, if milliseconds = 0 then 1 else 0⟩

/-- What an id left to the server in full comes to depends on the clock; no
other does. -/
theorem resolve_of_ne_auto {requested : RequestedId} (named : requested ≠ .auto)
    (unix unix' : UInt64) (top : Option EntryId) :
    resolve unix requested top = resolve unix' requested top := by
  cases requested with
  | explicit id => rfl
  | autoSequence milliseconds => rfl
  | auto => exact absurd rfl named

/-- An id the server picks for a stream holding nothing yet is above `0-0`. -/
theorem resolve_none {unix : UInt64} {requested : RequestedId} :
    ∃ id, resolve unix requested none = .ok id ∧
      (requested = .explicit id ∨ EntryId.zero < id) := by
  have picked (milliseconds : UInt64) :
      EntryId.zero < ⟨milliseconds, if milliseconds = 0 then 1 else 0⟩ := by
    rw [EntryId.lt_iff_rank]
    by_cases isZero : milliseconds = 0
    · simp [isZero, EntryId.rank, EntryId.zero]
    · have positive : 0 < milliseconds.toNat := by
        rw [Nat.pos_iff_ne_zero]
        intro zero
        exact isZero (UInt64.toNat_inj.mp zero)
      simp only [EntryId.rank, EntryId.zero, if_neg isZero]
      simp
      omega
  cases requested with
  | explicit id => exact ⟨id, rfl, .inl rfl⟩
  | autoSequence milliseconds => exact ⟨_, rfl, .inr (picked milliseconds)⟩
  | auto => exact ⟨_, rfl, .inr (picked unix)⟩

end RedisServer
