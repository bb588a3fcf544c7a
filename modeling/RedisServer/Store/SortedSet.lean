import RedisServer.Text
import RedisServer.Lib.FloatOrder

/-!
# Sorted sets

A sorted set is a vector of members kept in the order of their scores, and of
their names where the scores are equal.  A member is found by its name and put
in its place by a search for the first member that does not precede it.

Scores are doubles in the server, and any type whose values compare here: a
`Score` says how two of them compare, and ranks the ones that compare at all in
a linear order.
-/

namespace RedisServer

/-- What a member may be scored with. -/
class Score (σ : Type) where
  partialCmp : σ → σ → Option Ordering
  Rank : Type
  [linearOrder : LinearOrder Rank]
  rank : σ → Option Rank
  partialCmp_eq : ∀ left right, partialCmp left right =
    match rank left, rank right with
    | some left, some right => some (compare left right)
    | _, _ => none

attribute [reducible, instance] Score.linearOrder

instance : Score Float where
  partialCmp := FloatOrder.partialCmp
  Rank := FloatOrder.Rank
  rank := FloatOrder.rank
  partialCmp_eq left right := by
    rw [FloatOrder.partialCmp_eq]
    cases FloatOrder.rank left <;> cases FloatOrder.rank right <;> rfl

/-- One member of a sorted set: what it is called, and where it falls. -/
structure Member (σ : Type) where
  score : σ
  name : Bytes
  deriving DecidableEq

/-- The members of a sorted set, in the order it holds them. -/
abbrev SortedSet (σ : Type) := List (Member σ)

/-- `slice::partition_point`, on a slice the predicate splits in two. -/
def partitionPoint {α : Type} (holds : α → Bool) (slice : List α) : Nat :=
  (slice.takeWhile holds).length

theorem insertIdx_partitionPoint {α : Type} (holds : α → Bool) (slice : List α)
    (value : α) : slice.insertIdx (partitionPoint holds slice) value =
      slice.takeWhile holds ++ value :: slice.dropWhile holds := by
  induction slice with
  | nil => rfl
  | cons first slice ih =>
    simp only [partitionPoint] at ih
    by_cases front : holds first <;> simp [partitionPoint, front, ih]

theorem drop_partitionPoint {α : Type} (holds : α → Bool) (slice : List α) :
    slice.drop (partitionPoint holds slice) = slice.dropWhile holds := by
  induction slice with
  | nil => rfl
  | cons first slice ih =>
    simp only [partitionPoint] at ih
    by_cases front : holds first <;> simp [partitionPoint, front, ih]

/-- Whether one member comes before another: by score, and by name where the
scores are equal. -/
def precedes {σ : Type} [Score σ] (member other : Member σ) : Bool :=
  match Score.partialCmp member.score other.score with
  | some .lt => true
  | some .eq => compare member.name other.name == .lt
  | _ => false

namespace SortedSet

section Names

variable {σ : Type}

/-- Where a member falls in the order, counting from the first. -/
def «at» (set : SortedSet σ) (name : Bytes) : Option Nat :=
  set.findIdx? fun member => member.name == name

/-- The score a member was given. -/
def score (set : SortedSet σ) (name : Bytes) : Option σ :=
  (set.find? fun member => member.name == name).map Member.score

/-- Lifts a member out by name, and says whether it was there. -/
def take (set : SortedSet σ) (name : Bytes) : SortedSet σ × Bool :=
  match set.at name with
  | some place => (set.eraseIdx place, true)
  | none => (set, false)

theorem take_fst (set : SortedSet σ) (name : Bytes) :
    (set.take name).1 = set.eraseP fun member => member.name == name := by
  rw [List.eraseP_eq_eraseIdx]
  simp only [take, «at»]
  cases set.findIdx? fun member => member.name == name <;> rfl

/-- Nothing is lifted out of a set that does not hold the name. -/
theorem take_of_absent {set : SortedSet σ} {name : Bytes}
    (absent : (set.take name).2 = false) : (set.take name).1 = set := by
  simp only [take] at absent ⊢
  cases found : set.at name with
  | none => rfl
  | some place => simp [found] at absent

end Names

variable {σ : Type} [Score σ]

/-- Puts a member in its place, and says whether it is one this set had never
held.  A member that was already here is moved. -/
def add (set : SortedSet σ) (score : σ) (name : Bytes) : SortedSet σ × Bool :=
  let taken := set.take name
  let member : Member σ := ⟨score, name⟩
  let place := partitionPoint (fun other => precedes other member) taken.1
  (taken.1.insertIdx place member, !taken.2)

/-- A set as it is once these members have been put in their places, with the
number of them it had never held. -/
def addAll (set : SortedSet σ) : List (σ × Bytes) → SortedSet σ × Nat
  | [] => (set, 0)
  | (score, name) :: members =>
    let added := set.add score name
    let rest := addAll added.1 members
    (rest.1, rest.2 + if added.2 then 1 else 0)

/-- A set as it is once these names have been lifted out of it, with the number
of them that were there. -/
def takeAll {σ : Type} (set : SortedSet σ) : List Bytes → SortedSet σ × Nat
  | [] => (set, 0)
  | name :: names =>
    let taken := set.take name
    let rest := takeAll taken.1 names
    (rest.1, rest.2 + if taken.2 then 1 else 0)

/-! ## The order a set is held in -/

/-- Members with a score that is a number. -/
abbrev Numbered (member : Member σ) : Prop := (Score.rank member.score).isSome

/-- A sorted set as the server holds one: every score is a number, each member
precedes all those after it, and no name is held twice. -/
structure Proper (set : SortedSet σ) : Prop where
  numbers : ∀ member ∈ set, Numbered member
  ordered : set.Pairwise fun left right => precedes left right
  names : (set.map Member.name).Nodup

theorem proper_nil : Proper ([] : SortedSet σ) where
  numbers := by simp
  ordered := .nil
  names := by simp

theorem Proper.sublist {set part : SortedSet σ} (proper : Proper set)
    (sublist : part.Sublist set) : Proper part where
  numbers := fun member inPart => proper.numbers member (sublist.subset inPart)
  ordered := proper.ordered.sublist sublist
  names := proper.names.sublist (sublist.map Member.name)

theorem Proper.take {set : SortedSet σ} (proper : Proper set) (name : Bytes) :
    Proper (set.take name).1 := by
  rw [take_fst]
  exact proper.sublist List.eraseP_sublist

/-- What is left once a name has been lifted out does not hold it. -/
theorem Proper.absent_of_take {set : SortedSet σ} (proper : Proper set)
    (name : Bytes) : ∀ member ∈ (set.take name).1, member.name ≠ name := by
  rw [take_fst]
  induction set with
  | nil => simp
  | cons first set ih =>
    have rest := ih (proper.sublist (List.sublist_cons_self first set))
    have names := proper.names
    simp only [List.map_cons, List.nodup_cons] at names
    by_cases named : first.name = name
    · rw [List.eraseP_cons_of_pos (by simpa using named)]
      rintro member inSet rfl
      exact names.1 (by rw [named]; exact List.mem_map_of_mem inSet)
    · rw [List.eraseP_cons_of_neg (by simpa using named)]
      rintro member inSet
      rcases List.mem_cons.mp inSet with rfl | later
      · exact named
      · exact rest member later

/-- Preceding is the order of the scores' ranks, then of the names. -/
theorem precedes_iff {left right : Member σ} {leftRank rightRank : Score.Rank σ}
    (leftRanked : Score.rank left.score = some leftRank)
    (rightRanked : Score.rank right.score = some rightRank) :
    precedes left right ↔ leftRank < rightRank ∨
      (leftRank = rightRank ∧ compare left.name right.name = .lt) := by
  simp only [precedes, Score.partialCmp_eq, leftRanked, rightRanked]
  rcases lt_trichotomy leftRank rightRank with less | rfl | greater
  · simp [compare_lt_iff_lt.mpr less, less]
  · simp
  · simp [compare_gt_iff_gt.mpr greater, greater.not_gt, greater.ne']

theorem precedes_trans {first second third : Member σ} (firstNumbered : Numbered first)
    (secondNumbered : Numbered second) (thirdNumbered : Numbered third)
    (earlier : precedes first second) (later : precedes second third) :
    precedes first third := by
  obtain ⟨firstRank, firstRanked⟩ := Option.isSome_iff_exists.mp firstNumbered
  obtain ⟨secondRank, secondRanked⟩ := Option.isSome_iff_exists.mp secondNumbered
  obtain ⟨thirdRank, thirdRanked⟩ := Option.isSome_iff_exists.mp thirdNumbered
  rw [precedes_iff firstRanked secondRanked] at earlier
  rw [precedes_iff secondRanked thirdRanked] at later
  rw [precedes_iff firstRanked thirdRanked]
  rcases earlier with less | ⟨rfl, less⟩ <;> rcases later with less' | ⟨rfl, less'⟩
  · exact .inl (less.trans less')
  · exact .inl less
  · exact .inl less'
  · exact .inr ⟨rfl, Std.TransCmp.lt_trans less less'⟩

/-- Of two members of different names, one comes before the other. -/
theorem precedes_total {left right : Member σ} (leftNumbered : Numbered left)
    (rightNumbered : Numbered right) (different : left.name ≠ right.name)
    (notBefore : ¬ precedes left right) : precedes right left := by
  obtain ⟨leftRank, leftRanked⟩ := Option.isSome_iff_exists.mp leftNumbered
  obtain ⟨rightRank, rightRanked⟩ := Option.isSome_iff_exists.mp rightNumbered
  rw [precedes_iff leftRanked rightRanked] at notBefore
  rw [precedes_iff rightRanked leftRanked]
  rcases lt_trichotomy leftRank rightRank with less | rfl | greater
  · exact absurd (.inl less) notBefore
  · refine .inr ⟨rfl, ?_⟩
    have notLess : compare left.name right.name ≠ .lt := fun less =>
      notBefore (.inr ⟨rfl, less⟩)
    have notEqual : compare left.name right.name ≠ .eq := fun equal =>
      different (Std.LawfulEqOrd.eq_of_compare equal)
    rw [Std.OrientedOrd.eq_swap (a := right.name)]
    cases compared : compare left.name right.name with
    | lt => exact absurd compared notLess
    | eq => exact absurd compared notEqual
    | gt => rfl
  · exact .inl greater

theorem add_fst (set : SortedSet σ) (score : σ) (name : Bytes) :
    (set.add score name).1 =
      (set.take name).1.takeWhile (fun other => precedes other ⟨score, name⟩) ++
        ⟨score, name⟩ ::
          (set.take name).1.dropWhile (fun other => precedes other ⟨score, name⟩) :=
  insertIdx_partitionPoint _ _ _

theorem add_ne_nil (set : SortedSet σ) (score : σ) (name : Bytes) :
    (set.add score name).1 ≠ [] := by
  rw [add_fst]
  simp

/-- A member found past the place of another does not precede it, and neither
does any after it. -/
private theorem precedes_dropWhile {set : SortedSet σ} (member : Member σ)
    (proper : Proper set) (numbered : Numbered member)
    (unnamed : ∀ other ∈ set, other.name ≠ member.name) :
    ∀ other ∈ set.dropWhile (fun other => precedes other member),
      precedes member other := by
  induction set with
  | nil => simp
  | cons first set ih =>
    by_cases before : precedes first member
    · rw [List.dropWhile_cons_of_pos (by exact before)]
      exact ih (proper.sublist (List.sublist_cons_self first set))
        fun other inSet => unnamed other (by simp [inSet])
    · rw [List.dropWhile_cons_of_neg (by exact before)]
      have firstNumbered := proper.numbers first (by simp)
      have next : precedes member first :=
        precedes_total firstNumbered numbered (unnamed first (by simp)) before
      intro other inSet
      rcases List.mem_cons.mp inSet with rfl | later
      · exact next
      · exact precedes_trans numbered firstNumbered
          (proper.numbers other (by simp [later])) next
          (List.rel_of_pairwise_cons proper.ordered later)

theorem Proper.add {set : SortedSet σ} (proper : Proper set) {score : σ}
    (number : (Score.rank score).isSome) (name : Bytes) :
    Proper (set.add score name).1 := by
  have rest := proper.take name
  have unnamed := proper.absent_of_take name
  rw [add_fst]
  generalize (set.take name).1 = taken at rest unnamed
  have later := precedes_dropWhile ⟨score, name⟩ rest number unnamed
  have split : taken.takeWhile (fun other => precedes other ⟨score, name⟩) ++
      taken.dropWhile (fun other => precedes other ⟨score, name⟩) = taken :=
    List.takeWhile_append_dropWhile
  have earlier : ∀ other ∈ taken.takeWhile (fun other => precedes other ⟨score, name⟩),
      precedes other (⟨score, name⟩ : Member σ) := by
    intro other inFront
    exact List.mem_takeWhile_imp (p := fun other => precedes other ⟨score, name⟩) inFront
  generalize taken.takeWhile (fun other => precedes other ⟨score, name⟩) = front
    at split earlier
  generalize taken.dropWhile (fun other => precedes other ⟨score, name⟩) = back
    at split later
  subst split
  have ordered := List.pairwise_append.mp rest.ordered
  refine ⟨?_, ?_, ?_⟩
  · intro member inSet
    simp only [List.mem_append, List.mem_cons] at inSet
    rcases inSet with inFront | rfl | inBack
    · exact rest.numbers member (by simp [inFront])
    · exact number
    · exact rest.numbers member (by simp [inBack])
  · refine List.pairwise_append.mpr ⟨ordered.1, ?_, ?_⟩
    · exact List.pairwise_cons.mpr ⟨later, ordered.2.1⟩
    · intro left inFront right inBack
      rcases List.mem_cons.mp inBack with rfl | after
      · exact earlier left inFront
      · exact ordered.2.2 left inFront right after
  · have names := rest.names
    simp only [List.map_append, List.map_cons] at names ⊢
    rw [List.nodup_middle, List.nodup_cons]
    refine ⟨?_, names⟩
    rw [← List.map_append, List.mem_map]
    rintro ⟨member, inSet, named⟩
    exact unnamed member inSet named

theorem Proper.addAll {set : SortedSet σ} (proper : Proper set)
    {members : List (σ × Bytes)}
    (numbers : ∀ member ∈ members, (Score.rank member.1).isSome) :
    Proper (set.addAll members).1 := by
  induction members generalizing set with
  | nil => exact proper
  | cons member members ih =>
    exact ih (proper.add (numbers member (by simp)) member.2)
      fun other inMembers => numbers other (by simp [inMembers])

theorem addAll_ne_nil {set : SortedSet σ} {members : List (σ × Bytes)}
    (some_held : set ≠ [] ∨ members ≠ []) : (set.addAll members).1 ≠ [] := by
  induction members generalizing set with
  | nil => simpa [SortedSet.addAll] using some_held
  | cons member members ih => exact ih (.inl (add_ne_nil set member.1 member.2))

theorem Proper.takeAll {set : SortedSet σ} (proper : Proper set) (names : List Bytes) :
    Proper (set.takeAll names).1 := by
  induction names generalizing set with
  | nil => exact proper
  | cons name names ih => exact ih (proper.take name)

/-- A set none of these names were lifted out of is as it was. -/
theorem takeAll_of_none {σ : Type} {set : SortedSet σ} {names : List Bytes}
    (absent : (set.takeAll names).2 = 0) : (set.takeAll names).1 = set := by
  induction names generalizing set with
  | nil => rfl
  | cons name names ih =>
    simp only [SortedSet.takeAll, Nat.add_eq_zero_iff, ite_eq_right_iff,
      one_ne_zero, imp_false, Bool.not_eq_true] at absent ⊢
    rw [ih absent.1, take_of_absent absent.2]

end SortedSet

end RedisServer
