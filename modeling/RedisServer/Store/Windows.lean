import RedisServer.Store.Invariant

/-!
# What windows and ranges come to

A window of a list or of a sorted set is cut out between two offsets, either of which may
count from the end.  Offsets that reach back past the start are drawn in to the first
element, so that a window lying wholly before the start is drawn in to that element too.

A range of a stream is cut out between two searches.  Ends given the wrong way round put
the second search before the first when the stream has an entry in between.
-/

namespace RedisServer

/-! ## Windows -/

/-- Where an index points, counting from the end when it is negative. -/
def pointsTo (index : Int) (length : Nat) : Int :=
  if 0 ≤ index then index else length + index

/-- The elements at the positions from one index to another. -/
def positionsBetween {α : Type} (start stop : Int) (elements : List α) : List α :=
  (elements.zipIdx.filter fun placed =>
    pointsTo start elements.length ≤ placed.2 ∧ placed.2 ≤ pointsTo stop elements.length).map
    Prod.fst

/-- The window ends before the first element and does not start after it. -/
def endsBefore (start stop : Int) (length : Nat) : Prop :=
  0 < length ∧ pointsTo stop length < 0 ∧ pointsTo start length ≤ 0

instance (start stop : Int) (length : Nat) : Decidable (endsBefore start stop length) :=
  inferInstanceAs (Decidable (_ ∧ _ ∧ _))

theorem resolveIndex_eq (index : Int) (length : Nat) :
    resolveIndex index length = (pointsTo index length).toNat := by
  unfold resolveIndex pointsTo
  split <;> omega

/-- The elements between two positions are cut out by leaving off both ends. -/
theorem filter_zipIdx {α : Type} (elements : List α) (offset first last : Nat) :
    ((elements.zipIdx offset).filter fun placed => first ≤ placed.2 ∧ placed.2 < last).map
        Prod.fst =
      (elements.take (last - offset)).drop (first - offset) := by
  induction elements generalizing offset with
  | nil => simp
  | cons element elements ih =>
    rw [List.zipIdx_cons, List.filter_cons]
    by_cases before : offset < last
    · obtain ⟨room, isRoom⟩ : ∃ room, last - offset = room + 1 := ⟨last - offset - 1, by omega⟩
      rw [isRoom, List.take_succ_cons]
      by_cases reached : first ≤ offset
      · rw [if_pos (by simp [before, reached]), List.map_cons, ih]
        have nothing : first - offset = 0 := by omega
        have nothing' : first - (offset + 1) = 0 := by omega
        have isRoom' : last - (offset + 1) = room := by omega
        rw [nothing, nothing', isRoom', List.drop_zero, List.drop_zero]
      · obtain ⟨left, isLeft⟩ : ∃ left, first - offset = left + 1 := ⟨first - offset - 1, by omega⟩
        have isRoom' : last - (offset + 1) = room := by omega
        have isLeft' : first - (offset + 1) = left := by omega
        rw [if_neg (by simp [reached]), ih, isLeft, isLeft', isRoom', List.drop_succ_cons]
    · have spent : last - offset = 0 := by omega
      have spent' : last - (offset + 1) = 0 := by omega
      rw [if_neg (by simp [before]), ih, spent, spent', List.take_zero, List.take_zero,
        List.drop_nil, List.drop_nil]

theorem positionsBetween_eq {α : Type} (start stop : Int) (elements : List α) :
    positionsBetween start stop elements =
      (elements.take (pointsTo stop elements.length + 1).toNat).drop
        (pointsTo start elements.length).toNat := by
  have cut := filter_zipIdx elements 0 (pointsTo start elements.length).toNat
    (pointsTo stop elements.length + 1).toNat
  rw [Nat.sub_zero, Nat.sub_zero] at cut
  rw [← cut, positionsBetween]
  congr 2
  funext placed
  rw [decide_eq_decide]
  omega

/-- A window is what lies between its ends, but for one that ends before the start. -/
theorem window_eq_iff {α : Type} (start stop : Int) (elements : List α) :
    window start stop elements = positionsBetween start stop elements ↔
      ¬ endsBefore start stop elements.length := by
  rw [positionsBetween_eq, window, resolveIndex_eq, resolveIndex_eq, endsBefore]
  generalize pointsTo start elements.length = first
  generalize pointsTo stop elements.length = last
  by_cases early : last < 0
  · have spent : (last + 1).toNat = 0 := by omega
    rw [spent, List.take_zero, List.drop_nil]
    by_cases outside : last.toNat < first.toNat ∨ elements.length ≤ first.toNat
    · rw [if_pos outside]
      exact iff_of_true rfl (by omega)
    · rw [if_neg outside]
      refine iff_of_false (fun isNil => ?_) (by omega)
      have noLength := congrArg List.length isNil
      simp only [List.length_take, List.length_drop, List.length_nil] at noLength
      omega
  · refine iff_of_true ?_ (by omega)
    split
    · rename_i outside
      refine (List.drop_eq_nil_of_le ?_).symm
      rw [List.length_take]
      omega
    · rename_i inside
      dsimp only
      rw [List.drop_take]
      rcases le_total last.toNat (elements.length - 1) with within | beyond
      · have sameLength : min last.toNat (elements.length - 1) + 1 - first.toNat =
            (last + 1).toNat - first.toNat := by omega
        rw [sameLength]
      · rw [List.take_of_length_le (by rw [List.length_drop]; omega),
          List.take_of_length_le (by rw [List.length_drop]; omega)]

/-- Whether what is worked out on the way to a window stays in range: the offsets fit in a
`usize`, and the slice that is taken lies inside the elements. -/
def WindowInRange (start stop : Int) (length : Nat) : Prop :=
  resolveIndex start length ≤ usizeMax ∧ resolveIndex stop length ≤ usizeMax ∧
    (¬ (resolveIndex stop length < resolveIndex start length ∨
        length ≤ resolveIndex start length) →
      1 ≤ length ∧ resolveIndex start length ≤ min (resolveIndex stop length) (length - 1) ∧
        min (resolveIndex stop length) (length - 1) < length)

theorem windowInRange {start stop : Int} {length : Nat} (startFits : start ≤ i64Max)
    (stopFits : stop ≤ i64Max) (fits : length ≤ usizeMax) : WindowInRange start stop length := by
  have bound : (i64Max : Int) ≤ usizeMax := by decide
  have resolved (index : Int) (indexFits : index ≤ i64Max) :
      resolveIndex index length ≤ usizeMax := by
    unfold resolveIndex
    split <;> omega
  exact ⟨resolved start startFits, resolved stop stopFits, by omega⟩

/-- `LRANGE` and `ZRANGE` answer with the window asked for, whatever the two indexes, just
when the window does not end before the start of what is there. -/
theorem State.windows_exact_iff (state : State) (clock : Clock) (key : Bytes) (start stop : Int)
    (startFits : -i64Max - 1 ≤ start ∧ start ≤ i64Max)
    (stopFits : -i64Max - 1 ≤ stop ∧ stop ≤ i64Max) :
    (∀ list, Cell.list ((state.live clock.now key).map Entry.cell) = .ok list →
      list.length ≤ usizeMax →
      (((state.lrange clock.now key start stop).2 = .ok (positionsBetween start stop list) ∧
          WindowInRange start stop list.length) ↔
        ¬ endsBefore start stop list.length)) ∧
    (∀ set, Cell.sortedSet ((state.live clock.now key).map Entry.cell) = .ok set →
      set.length ≤ usizeMax →
      (((state.zrange clock.now key start stop).2 =
            .ok ((positionsBetween start stop set).map Member.name) ∧
          WindowInRange start stop set.length) ↔
        ¬ endsBefore start stop set.length)) := by
  constructor
  · intro list held fits
    obtain ⟨cell, acted, -⟩ := (@State.lrange_acts clock state key start stop).cell
    simp only [KeyOp.act, held, Except.map, Option.some.injEq, Prod.mk.injEq] at acted
    rw [← acted.2, Except.ok.injEq, window_eq_iff]
    exact and_iff_left (windowInRange startFits.2 stopFits.2 fits)
  · intro set held fits
    rw [State.zrange, State.asked_eq, held]
    simp only [Except.map, Except.ok.injEq]
    rw [← window_eq_iff]
    refine (and_iff_left (windowInRange startFits.2 stopFits.2 fits)).trans
      ⟨fun sameNames => ?_, fun same => by rw [same]⟩
    -- a window that is not what lies between its ends holds one element more
    by_contra different
    rw [window_eq_iff, not_not] at different
    have sameLength := congrArg List.length sameNames
    rw [List.length_map, List.length_map, positionsBetween_eq, window, resolveIndex_eq,
      resolveIndex_eq] at sameLength
    obtain ⟨nonempty, ends, starts⟩ := different
    rw [if_neg (by omega), List.length_drop, List.length_take, List.length_take,
      List.length_drop] at sameLength
    omega

/-- A store with the list `a`, `b` at one key. -/
def State.holdingTwo : State :=
  { entries := (∅ : Entries).insert [1] (Entry.new (.list [[97], [98]]) 0) }

theorem State.windows_exact_last :
    (State.holdingTwo.lrange 0 [1] (-1) 9).2 =
      .ok (positionsBetween (-1) 9 [[97], [98]]) :=
  (((State.windows_exact_iff .holdingTwo ⟨0, 0⟩ [1] (-1) 9 (by decide) (by decide)).1
    [[97], [98]] rfl (by decide)).mpr (by decide)).1

/-- `LRANGE key -9 -5` of two elements answers with the first. -/
theorem State.window_before_start :
    (State.holdingTwo.lrange 0 [1] (-9) (-5)).2 = .ok [[97]] ∧
      positionsBetween (-9) (-5) [[97], [98]] = ([] : List Bytes) := by
  decide +kernel

/-! ## Ranges -/

section

variable {α : Type} {holds : α → Bool} {slice : List α}

/-- Where what satisfies a predicate comes first, it is what the search goes past. -/
theorem takeWhile_eq_filter (front : slice.Pairwise fun left right => holds right → holds left) :
    slice.takeWhile holds = slice.filter holds := by
  induction slice with
  | nil => rfl
  | cons first slice ih =>
    obtain ⟨later, rest⟩ := List.pairwise_cons.mp front
    by_cases here : holds first
    · rw [List.takeWhile_cons_of_pos here, List.filter_cons_of_pos here, ih rest]
    · rw [List.takeWhile_cons_of_neg here, List.filter_cons_of_neg here, eq_comm,
        List.filter_eq_nil_iff]
      exact fun other member found => here (later other member found)

theorem partitionPoint_eq_countP
    (front : slice.Pairwise fun left right => holds right → holds left) :
    partitionPoint holds slice = slice.countP holds := by
  rw [partitionPoint, takeWhile_eq_filter front, List.countP_eq_length_filter]

theorem dropWhile_eq_filter (front : slice.Pairwise fun left right => holds right → holds left) :
    slice.dropWhile holds = slice.filter fun value => !holds value := by
  induction slice with
  | nil => rfl
  | cons first slice ih =>
    obtain ⟨later, rest⟩ := List.pairwise_cons.mp front
    by_cases here : holds first
    · rw [List.dropWhile_cons_of_pos here, List.filter_cons_of_neg (by simpa using here),
        ih rest]
    · rw [List.dropWhile_cons_of_neg here, eq_comm, List.filter_eq_self]
      intro other member
      rcases List.mem_cons.mp member with rfl | later'
      · simpa using here
      · simpa using fun found => here (later other later' found)

end

namespace Cell

variable {stream : List StreamEntry}

/-- A stream whose entries are in order. -/
abbrev Ordered (stream : List StreamEntry) : Prop :=
  stream.Pairwise fun earlier later => earlier.id < later.id

theorem front_below (ordered : Ordered stream) (start : EntryId) :
    stream.Pairwise fun left right =>
      decide (right.id < start) = true → decide (left.id < start) = true := by
  refine ordered.imp fun earlier below => ?_
  rw [decide_eq_true_eq] at below ⊢
  exact earlier.trans below

theorem front_upTo (ordered : Ordered stream) (stop : EntryId) :
    stream.Pairwise fun left right =>
      decide (right.id ≤ stop) = true → decide (left.id ≤ stop) = true := by
  refine ordered.imp fun earlier within => ?_
  rw [decide_eq_true_eq] at within ⊢
  exact earlier.le.trans within

/-- The entries of a stream in a range of ids. -/
def inRange (start stop : EntryId) (stream : List StreamEntry) : List StreamEntry :=
  stream.filter fun entry => start ≤ entry.id ∧ entry.id ≤ stop

/-- The two searches for a range come out in order, and what is cut out between them is
the range, unless an entry lies past the end of the range and before its start. -/
theorem between_eq (ordered : Ordered stream) (start stop : EntryId) :
    between start stop stream =
      if ∃ entry ∈ stream, stop < entry.id ∧ entry.id < start then none
      else some (inRange start stop stream) := by
  simp only [between]
  by_cases crossed : ∃ entry ∈ stream, stop < entry.id ∧ entry.id < start
  · rw [if_pos crossed, if_pos]
    obtain ⟨entry, member, past, before⟩ := crossed
    rw [partitionPoint_eq_countP (front_below ordered start),
      partitionPoint_eq_countP (front_upTo ordered stop),
      List.countP_eq_countP_filter_add stream (fun entry => entry.id < start)
        (fun entry => entry.id ≤ stop)]
    have all : (stream.filter fun entry => entry.id ≤ stop).countP (fun entry => entry.id < start) =
        stream.countP fun entry => entry.id ≤ stop := by
      rw [List.countP_filter]
      refine List.countP_congr fun other _ => ?_
      simp only [Bool.and_eq_true, decide_eq_true_eq, and_iff_right_iff_imp]
      exact fun within => within.trans_lt (past.trans before)
    rw [all, Nat.lt_add_right_iff_pos, List.countP_pos_iff]
    exact ⟨entry, List.mem_filter.mpr ⟨member, by simpa using past⟩, by simpa using before⟩
  · rw [if_neg crossed, if_neg]
    · have cut : stream.take (partitionPoint (fun entry => entry.id ≤ stop) stream) =
          stream.filter fun entry => entry.id ≤ stop := by
        rw [← takeWhile_eq_filter (front_upTo ordered stop)]
        exact (List.prefix_iff_eq_take.mp (List.takeWhile_prefix _)).symm
      have ordered' : Ordered (stream.filter fun entry => entry.id ≤ stop) := ordered.filter _
      have place : partitionPoint (fun entry => entry.id < start) stream =
          partitionPoint (fun entry => entry.id < start)
            (stream.filter fun entry => entry.id ≤ stop) := by
        rw [partitionPoint_eq_countP (front_below ordered start),
          partitionPoint_eq_countP (front_below ordered' start), List.countP_filter]
        refine List.countP_congr fun entry member => ?_
        simp only [Bool.and_eq_true, decide_eq_true_eq, iff_self_and]
        exact fun before => not_lt.mp fun past => crossed ⟨entry, member, past, before⟩
      rw [← List.drop_take, cut, place, drop_partitionPoint,
        dropWhile_eq_filter (front_below ordered' start), List.filter_filter, inRange]
      congr 2
      funext entry
      simp [← decide_not]
    · rw [partitionPoint_eq_countP (front_below ordered start),
        partitionPoint_eq_countP (front_upTo ordered stop), not_lt]
      refine List.countP_mono_left fun entry member before => ?_
      simp only [decide_eq_true_eq] at before ⊢
      exact not_lt.mp fun past => crossed ⟨entry, member, past, before⟩

end Cell

end RedisServer
