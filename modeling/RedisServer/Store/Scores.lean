import RedisServer.Store.Windows

/-!
# Sorted sets as maps of scores

A sorted set pictures a map from names to scores: its members are the pairs of the map, in
the order of their scores and then of their names.  Whatever members are put in and taken
out, the set is the one picture of the map they leave, and what it is asked is answered by
the map.
-/

namespace RedisServer

variable {state : State} {start : Instant} {key : Bytes} {held : Option (SortedSet Float)}

/-- A score from any linear order. -/
abbrev Score.ofLinearOrder (σ : Type) [order : LinearOrder σ] : Score σ where
  partialCmp left right := some (compare left right)
  Rank := σ
  rank := some
  partialCmp_eq _ _ := rfl

/-- A command that changes a sorted set. -/
inductive ZOp (σ : Type) where
  | zadd (members : List (σ × Bytes))
  | zrem (names : List Bytes)

/-- The score each name has, if it has one. -/
abbrev Scores (σ : Type) := Bytes → Option σ

namespace Scores

variable {σ : Type}

/-- The scores once a command has been carried out: a name has the one last given to it. -/
def after (scores : Scores σ) : ZOp σ → Scores σ
  | .zadd members =>
    members.foldl (fun scores member => Function.update scores member.2 (some member.1)) scores
  | .zrem names => names.foldl (fun scores name => Function.update scores name none) scores

/-- The scores a sequence of commands leaves. -/
def given (ops : List (ZOp σ)) : Scores σ := ops.foldl after fun _ => none

/-- The names that have a score. -/
def names (scores : Scores σ) : Set Bytes := { name | scores name ≠ none }

/-- How many names a command brings in or puts out. -/
noncomputable def changed (scores : Scores σ) : ZOp σ → Nat
  | .zadd members => ((scores.after (.zadd members)).names \ scores.names).ncard
  | .zrem names => (scores.names \ (scores.after (.zrem names)).names).ncard

theorem names_subset_zadd (scores : Scores σ) (members : List (σ × Bytes)) :
    scores.names ⊆ (scores.after (.zadd members)).names := by
  induction members generalizing scores with
  | nil => exact subset_rfl
  | cons member members ih =>
    refine subset_trans (fun name given => ?_) (ih (Function.update scores member.2 member.1))
    rw [names, Set.mem_ofPred_eq, Function.update_apply]
    split
    · exact Option.some_ne_none _
    · exact given

theorem names_zrem_subset (scores : Scores σ) (gone : List Bytes) :
    (scores.after (.zrem gone)).names ⊆ scores.names := by
  induction gone generalizing scores with
  | nil => exact subset_rfl
  | cons first gone ih =>
    refine subset_trans (ih (Function.update scores first none)) fun name given => ?_
    rw [names, Set.mem_ofPred_eq, Function.update_apply] at given
    split at given
    · exact absurd rfl given
    · exact given

end Scores

namespace ZOp

variable {σ : Type} [Score σ]

/-- A command as it is let through: at least one member is put in, and each with a score
that is a number. -/
def Sent : ZOp σ → Prop
  | .zadd members => members ≠ [] ∧ ∀ member ∈ members, (Score.rank member.1).isSome
  | .zrem _ => True

/-- What a command makes of the sorted set at its key, and what it answers. -/
def act : ZOp σ → Option (SortedSet σ) → Option (SortedSet σ) × Nat
  | .zadd members, held =>
    (some ((held.getD []).addAll members).1, ((held.getD []).addAll members).2)
  | .zrem _, none => (none, 0)
  | .zrem names, some set =>
    (if (set.takeAll names).1.isEmpty then none else some (set.takeAll names).1,
      (set.takeAll names).2)

/-- What a sequence of commands leaves at a key that held nothing. -/
def leave (ops : List (ZOp σ)) : Option (SortedSet σ) :=
  ops.foldl (fun held op => (op.act held).1) none

end ZOp

/-- Whether one member comes before another, by the order of the scores and then of the
names. -/
def Member.Before {σ : Type} [Score σ] (left right : Member σ) : Prop :=
  ∃ leftRank rightRank, Score.rank left.score = some leftRank ∧
    Score.rank right.score = some rightRank ∧
      (leftRank < rightRank ∨ leftRank = rightRank ∧ compare left.name right.name = .lt)

namespace SortedSet

variable {σ : Type} [Score σ] {set : SortedSet σ} {scores : Scores σ}

/-- A set pictures a map: it holds the pairs of the map, each before all those after it. -/
structure Pictures (set : SortedSet σ) (scores : Scores σ) : Prop where
  held : ∀ score name, ⟨score, name⟩ ∈ set ↔ scores name = some score
  ordered : set.Pairwise Member.Before

/-- A set the server holds that holds the pairs of a map. -/
structure Holds (set : SortedSet σ) (scores : Scores σ) : Prop where
  proper : Proper set
  held : ∀ score name, ⟨score, name⟩ ∈ set ↔ scores name = some score

theorem holds_nil : Holds ([] : SortedSet σ) fun _ => none where
  proper := proper_nil
  held := by simp

theorem before_iff {left right : Member σ} (leftNumbered : Numbered left)
    (rightNumbered : Numbered right) : left.Before right ↔ precedes left right := by
  obtain ⟨leftRank, leftRanked⟩ := Option.isSome_iff_exists.mp leftNumbered
  obtain ⟨rightRank, rightRanked⟩ := Option.isSome_iff_exists.mp rightNumbered
  rw [precedes_iff leftRanked rightRanked, Member.Before]
  constructor
  · rintro ⟨_, _, isLeft, isRight, ordered⟩
    rw [leftRanked, Option.some.injEq] at isLeft
    rw [rightRanked, Option.some.injEq] at isRight
    subst isLeft isRight
    exact ordered
  · exact fun ordered => ⟨leftRank, rightRank, leftRanked, rightRanked, ordered⟩

theorem before_irrefl (member : Member σ) : ¬ member.Before member := by
  rintro ⟨left, right, isLeft, isRight, less | ⟨-, less⟩⟩
  · obtain rfl := Option.some.inj (isLeft.symm.trans isRight)
    exact lt_irrefl _ less
  · simp at less

theorem before_asymm {left right : Member σ} (before : left.Before right) :
    ¬ right.Before left := by
  obtain ⟨leftRank, rightRank, isLeft, isRight, ordered⟩ := before
  rintro ⟨rightRank', leftRank', isRight', isLeft', ordered'⟩
  obtain rfl := Option.some.inj (isLeft.symm.trans isLeft')
  obtain rfl := Option.some.inj (isRight.symm.trans isRight')
  rcases ordered with less | ⟨rfl, less⟩ <;> rcases ordered' with less' | ⟨same, less'⟩
  · exact lt_asymm less less'
  · exact less.ne same.symm
  · exact lt_irrefl _ less'
  · exact absurd less' (by rw [Std.OrientedOrd.eq_swap, less]; decide)

theorem Holds.pictures (holds : Holds set scores) : Pictures set scores where
  held := holds.held
  ordered := holds.proper.ordered.imp_of_mem fun left right precedes =>
    (before_iff (holds.proper.numbers _ left) (holds.proper.numbers _ right)).mpr precedes

/-- A map has one picture. -/
theorem Pictures.unique {other : SortedSet σ} (pictures : Pictures set scores)
    (others : Pictures other scores) : set = other := by
  have nodup {set : SortedSet σ} (ordered : set.Pairwise Member.Before) : set.Nodup := by
    refine List.Pairwise.imp ?_ ordered
    rintro left right before rfl
    exact before_irrefl left before
  have perm : set.Perm other := by
    rw [List.perm_ext_iff_of_nodup (nodup pictures.ordered) (nodup others.ordered)]
    intro member
    exact (pictures.held member.score member.name).trans
      (others.held member.score member.name).symm
  exact perm.eq_of_pairwise (fun _ _ _ _ before after => absurd after (before_asymm before))
    pictures.ordered others.ordered

/-! ## One member put in or taken out -/

theorem mem_take (proper : Proper set) (name : Bytes) (member : Member σ) :
    member ∈ (set.take name).1 ↔ member ∈ set ∧ member.name ≠ name := by
  constructor
  · intro inRest
    refine ⟨?_, proper.absent_of_take name member inRest⟩
    rw [take_fst] at inRest
    exact List.mem_of_mem_eraseP inRest
  · rintro ⟨inSet, unnamed⟩
    rw [take_fst]
    exact (List.mem_eraseP_of_neg (by simpa using unnamed)).mpr inSet

theorem mem_add (proper : Proper set) (score : σ) (name : Bytes) (member : Member σ) :
    member ∈ (set.add score name).1 ↔
      member = ⟨score, name⟩ ∨ member ∈ set ∧ member.name ≠ name := by
  rw [add_fst, List.mem_append, List.mem_cons, or_left_comm, ← List.mem_append,
    List.takeWhile_append_dropWhile, mem_take proper]

theorem Holds.mem_names (holds : Holds set scores) (name : Bytes) :
    name ∈ scores.names ↔ ∃ member ∈ set, member.name = name := by
  rw [Scores.names, Set.mem_ofPred_eq, Option.ne_none_iff_exists']
  constructor
  · rintro ⟨score, given⟩
    exact ⟨⟨score, name⟩, (holds.held score name).mpr given, rfl⟩
  · rintro ⟨member, inSet, rfl⟩
    exact ⟨member.score, (holds.held _ _).mp inSet⟩

theorem Holds.take (holds : Holds set scores) (name : Bytes) :
    Holds (set.take name).1 (Function.update scores name none) where
  proper := holds.proper.take name
  held score other := by
    rw [mem_take holds.proper, holds.held, Function.update_apply]
    by_cases same : other = name <;> simp [same]

theorem Holds.add (holds : Holds set scores) {score : σ} (number : (Score.rank score).isSome)
    (name : Bytes) : Holds (set.add score name).1 (Function.update scores name (some score)) where
  proper := holds.proper.add number name
  held given other := by
    rw [mem_add holds.proper, holds.held, Function.update_apply, Member.mk.injEq]
    by_cases same : other = name
    · simp [same, eq_comm]
    · simp [same]

omit [Score σ] in
theorem length_take (set : SortedSet σ) (name : Bytes) :
    (set.take name).1.length + (if (set.take name).2 then 1 else 0) = set.length := by
  rw [take, «at»]
  cases found : set.findIdx? fun member => member.name == name with
  | none => rfl
  | some place =>
    obtain ⟨within, -, -⟩ := List.findIdx?_eq_some_iff_getElem.mp found
    have shorter := List.length_eraseIdx_of_lt within
    simp only [if_true]
    omega

theorem length_add (set : SortedSet σ) (score : σ) (name : Bytes) :
    (set.add score name).1.length = set.length + (if (set.add score name).2 then 1 else 0) := by
  have lifted := length_take set name
  have together (front : Member σ → Bool) : ((set.take name).1.takeWhile front).length +
      ((set.take name).1.dropWhile front).length = (set.take name).1.length := by
    rw [← List.length_append, List.takeWhile_append_dropWhile]
  rw [add_fst, List.length_append, List.length_cons]
  have flag : (set.add score name).2 = !(set.take name).2 := rfl
  have together := together fun other => precedes other ⟨score, name⟩
  rw [flag]
  cases known : (set.take name).2 <;> simp [known] at lifted ⊢ <;> omega

/-! ## A whole command -/

theorem Holds.addAll (holds : Holds set scores) {members : List (σ × Bytes)}
    (numbers : ∀ member ∈ members, (Score.rank member.1).isSome) :
    Holds (set.addAll members).1 (scores.after (.zadd members)) := by
  induction members generalizing set scores with
  | nil => exact holds
  | cons member members ih =>
    exact ih (holds.add (numbers member (by simp)) member.2)
      fun other inMembers => numbers other (by simp [inMembers])

theorem Holds.takeAll (holds : Holds set scores) (names : List Bytes) :
    Holds (set.takeAll names).1 (scores.after (.zrem names)) := by
  induction names generalizing set scores with
  | nil => exact holds
  | cons name names ih => exact ih (holds.take name)

theorem length_addAll (set : SortedSet σ) (members : List (σ × Bytes)) :
    (set.addAll members).1.length = set.length + (set.addAll members).2 := by
  induction members generalizing set with
  | nil => rfl
  | cons member members ih =>
    have first := length_add set member.1 member.2
    simp only [SortedSet.addAll, ih]
    omega

omit [Score σ] in
theorem length_takeAll (set : SortedSet σ) (names : List Bytes) :
    (set.takeAll names).1.length + (set.takeAll names).2 = set.length := by
  induction names generalizing set with
  | nil => rfl
  | cons name names ih =>
    have first := length_take set name
    have rest := ih (set.take name).1
    simp only [SortedSet.takeAll]
    omega

/-! ## What a set is asked -/

theorem ncard_of_nodup {α : Type} {elements : List α} (nodup : elements.Nodup) {set : Set α}
    (same : ∀ element, element ∈ set ↔ element ∈ elements) : set.ncard = elements.length := by
  classical
  have isFinset : set = (elements.toFinset : Set α) := by
    ext element
    simp [same]
  rw [isFinset, Set.ncard_coe_finset, List.toFinset_card_of_nodup nodup]

theorem Holds.ncard_names (holds : Holds set scores) : scores.names.ncard = set.length := by
  rw [ncard_of_nodup holds.proper.names fun name => (holds.mem_names name).trans List.mem_map.symm,
    List.length_map]

theorem Holds.finite_names (holds : Holds set scores) : scores.names.Finite := by
  refine (set.map Member.name).finite_toSet.subset fun name inside => ?_
  exact List.mem_map.mpr ((holds.mem_names name).mp inside)

theorem Holds.score_eq (holds : Holds set scores) (name : Bytes) :
    set.score name = scores name := by
  rw [SortedSet.score]
  cases found : set.find? fun member => member.name == name with
  | none =>
    cases given : scores name with
    | none => rfl
    | some score =>
      have unnamed := List.find?_eq_none.mp found _ ((holds.held score name).mpr given)
      simp at unnamed
  | some member =>
    have named : member.name = name := by simpa using List.find?_some found
    subst named
    exact ((holds.held _ _).mp (List.mem_of_find?_eq_some found)).symm

theorem Holds.at_of_none (holds : Holds set scores) {name : Bytes} (none_ : scores name = none) :
    set.at name = none := by
  refine List.findIdx?_eq_none_iff.mpr fun member inSet => ?_
  refine beq_eq_false_iff_ne.mpr ?_
  rintro rfl
  simp [(holds.held _ _).mp inSet] at none_

/-- A member stands at its rank, after those that come before it. -/
theorem Holds.at_of_some (holds : Holds set scores) {name : Bytes} {score : σ}
    (given : scores name = some score) :
    ∃ front back, set = front ++ ⟨score, name⟩ :: back ∧ set.at name = some front.length := by
  obtain ⟨front, back, rfl⟩ := List.append_of_mem ((holds.held score name).mpr given)
  refine ⟨front, back, rfl, ?_⟩
  have names := holds.proper.names
  rw [List.map_append, List.map_cons, List.nodup_append] at names
  have unnamed : front.findIdx? (fun member => member.name == name) = none := by
    refine List.findIdx?_eq_none_iff.mpr fun member inFront => beq_eq_false_iff_ne.mpr ?_
    exact names.2.2 _ (List.mem_map_of_mem inFront) _ (by simp)
  rw [«at», List.findIdx?_append, unnamed, List.findIdx?_cons]
  simp

/-- The names of the members that come before one. -/
def earlier (scores : Scores σ) (member : Member σ) : Set Bytes :=
  { name | ∃ score, scores name = some score ∧ Member.Before ⟨score, name⟩ member }

theorem Holds.ncard_earlier (holds : Holds set scores) {front back : SortedSet σ}
    {member : Member σ} (split : set = front ++ member :: back) :
    (earlier scores member).ncard = front.length := by
  have ordered := holds.pictures.ordered
  have names := holds.proper.names
  rw [split, List.pairwise_append, List.pairwise_cons] at ordered
  rw [split, List.map_append, List.nodup_append] at names
  rw [@ncard_of_nodup _ (front.map Member.name) names.1 _ fun name => ?_, List.length_map]
  rw [earlier, Set.mem_ofPred_eq, List.mem_map]
  constructor
  · rintro ⟨score, given, before⟩
    have inSet := (holds.held score name).mpr given
    rw [split, List.mem_append, List.mem_cons] at inSet
    rcases inSet with inFront | rfl | inBack
    · exact ⟨_, inFront, rfl⟩
    · exact absurd before (before_irrefl _)
    · exact absurd before (before_asymm (ordered.2.1.1 _ inBack))
  · rintro ⟨other, inFront, rfl⟩
    exact ⟨other.score, (holds.held _ _).mp (by rw [split]; exact List.mem_append_left _ inFront),
      ordered.2.2 _ inFront _ (List.mem_cons_self ..)⟩

omit [Score σ] in
theorem window_at (front back : SortedSet σ) (member : Member σ) :
    window front.length front.length (front ++ member :: back) = [member] := by
  have resolved : resolveIndex (front.length : Int) (front ++ member :: back).length =
      front.length := by
    rw [resolveIndex, if_pos (Int.natCast_nonneg _), Int.toNat_natCast]
  rw [window, resolved]
  simp

end SortedSet

/-! ## Whole sequences -/

namespace ZOp

variable {σ : Type} [Score σ]

open SortedSet

/-- What is held at a key whose scores are these: nothing at all where there are none. -/
structure Keeps (held : Option (SortedSet σ)) (scores : Scores σ) : Prop where
  holds : Holds (held.getD []) scores
  kept : held ≠ some []

theorem keeps_none : Keeps (none : Option (SortedSet σ)) fun _ => none where
  holds := holds_nil
  kept := nofun

variable {held : Option (SortedSet σ)} {scores : Scores σ}

theorem Keeps.zadd (keeps : Keeps held scores) {members : List (σ × Bytes)}
    (sent : (ZOp.zadd members).Sent) :
    Keeps (act (.zadd members) held).1 (scores.after (.zadd members)) ∧
      (act (.zadd members) held).2 = scores.changed (.zadd members) := by
  have after := keeps.holds.addAll sent.2
  refine ⟨⟨after, fun isNil => addAll_ne_nil (.inr sent.1) (Option.some.inj isNil)⟩, ?_⟩
  have longer := length_addAll (held.getD []) members
  rw [Scores.changed, Set.ncard_sdiff (scores.names_subset_zadd members) keeps.holds.finite_names,
    after.ncard_names, keeps.holds.ncard_names, longer, Nat.add_sub_cancel_left]
  rfl

theorem act_zrem (held : Option (SortedSet σ)) (names : List Bytes) :
    (act (.zrem names) held).1.getD [] = ((held.getD []).takeAll names).1 ∧
      (act (.zrem names) held).1 ≠ some [] ∧
        (act (.zrem names) held).2 = ((held.getD []).takeAll names).2 := by
  cases held with
  | none =>
    have nothing := length_takeAll ([] : SortedSet σ) names
    rw [List.length_nil, Nat.add_eq_zero_iff, List.length_eq_zero_iff] at nothing
    exact ⟨nothing.1.symm, nofun, nothing.2.symm⟩
  | some set =>
    rw [act, Option.getD_some]
    by_cases empty : (set.takeAll names).1 = []
    · simp [empty]
    · simp [empty]

theorem Keeps.zrem (keeps : Keeps held scores) (names : List Bytes) :
    Keeps (act (.zrem names) held).1 (scores.after (.zrem names)) ∧
      (act (.zrem names) held).2 = scores.changed (.zrem names) := by
  have after := keeps.holds.takeAll names
  have shorter := length_takeAll (held.getD []) names
  obtain ⟨rest, kept, answer⟩ := act_zrem held names
  refine ⟨⟨rest ▸ after, kept⟩, ?_⟩
  rw [answer, Scores.changed, Set.ncard_sdiff (scores.names_zrem_subset names) after.finite_names,
    after.ncard_names, keeps.holds.ncard_names, ← shorter, Nat.add_sub_cancel_left]

theorem Keeps.act (keeps : Keeps held scores) {op : ZOp σ} (sent : op.Sent) :
    Keeps (op.act held).1 (scores.after op) ∧ (op.act held).2 = scores.changed op := by
  cases op with
  | zadd members => exact keeps.zadd sent
  | zrem names => exact keeps.zrem names

/-- What a sequence of commands leaves, and the scores it gives. -/
theorem keeps_leave {ops : List (ZOp σ)} (sent : ∀ op ∈ ops, op.Sent) :
    Keeps (leave ops) (Scores.given ops) := by
  suffices whole : ∀ {held : Option (SortedSet σ)} {scores : Scores σ}, Keeps held scores →
      Keeps (ops.foldl (fun held op => (op.act held).1) held) (ops.foldl Scores.after scores) from
    whole keeps_none
  induction ops with
  | nil => exact id
  | cons op ops ih =>
    intro held scores keeps
    exact ih (fun other inOps => sent other (by simp [inOps])) (keeps.act (sent op (by simp))).1

/-- A key holds something just when some name has a score. -/
theorem Keeps.isSome_iff (keeps : Keeps held scores) : held.isSome ↔ scores.names.Nonempty := by
  rw [← Set.ncard_pos keeps.holds.finite_names, keeps.holds.ncard_names]
  cases held with
  | none => simp
  | some set =>
    have kept : set ≠ [] := fun isNil => keeps.kept (congrArg some isNil)
    simpa [List.length_pos_iff] using kept

/-- What a key holds is decided by the scores. -/
theorem Keeps.unique {other : Option (SortedSet σ)} (keeps : Keeps held scores)
    (others : Keeps other scores) : held = other := by
  have same := keeps.holds.pictures.unique others.holds.pictures
  have kept := keeps.kept
  have keptOther := others.kept
  cases held with
  | none =>
    cases other with
    | none => rfl
    | some set => exact absurd (congrArg some same.symm) keptOther
  | some set =>
    cases other with
    | none => exact absurd (congrArg some same) kept
    | some set' => exact congrArg some same

/-- What a sequence of commands leaves at a key is the one picture of the scores it gives,
and everything it is asked is answered by them. -/
structure Exact (ops : List (ZOp σ)) : Prop where
  pictures : Pictures ((leave ops).getD []) (Scores.given ops)
  canonical : ∀ others : List (ZOp σ), (∀ op ∈ others, op.Sent) →
    Scores.given others = Scores.given ops → leave others = leave ops
  counts : ∀ op : ZOp σ, op.Sent → (op.act (leave ops)).2 = (Scores.given ops).changed op
  zcard : ((leave ops).getD []).length = (Scores.given ops).names.ncard
  zscore : ∀ name, ((leave ops).getD []).score name = Scores.given ops name
  zrank : ∀ name, ((leave ops).getD []).at name =
    (Scores.given ops name).map fun score => (earlier (Scores.given ops) ⟨score, name⟩).ncard
  zrange : ∀ name rank, ((leave ops).getD []).at name = some rank →
    (window rank rank ((leave ops).getD [])).map Member.name = [name]
  «exists» : (leave ops).isSome ↔ (Scores.given ops).names.Nonempty

theorem exact {ops : List (ZOp σ)} (sent : ∀ op ∈ ops, op.Sent) : Exact ops := by
  have keeps := keeps_leave sent
  refine ⟨keeps.holds.pictures, ?_, fun op sentOp => (keeps.act sentOp).2,
    keeps.holds.ncard_names.symm, keeps.holds.score_eq, ?_, ?_, keeps.isSome_iff⟩
  · intro others sentOthers same
    have other := keeps_leave sentOthers
    rw [same] at other
    exact other.unique keeps
  · intro name
    cases given : Scores.given ops name with
    | none => exact keeps.holds.at_of_none given
    | some score =>
      obtain ⟨front, back, split, place⟩ := keeps.holds.at_of_some given
      rw [place, Option.map_some, keeps.holds.ncard_earlier split]
  · intro name rank place
    cases given : Scores.given ops name with
    | none => simp [keeps.holds.at_of_none given] at place
    | some score =>
      obtain ⟨front, back, split, there⟩ := keeps.holds.at_of_some given
      obtain rfl := Option.some.inj (there.symm.trans place)
      rw [split, window_at]
      rfl

end ZOp

/-! ## In the store -/

namespace State

/-- A command carried out at a key of the store. -/
def zop (state : State) (now : Instant) (key : Bytes) : ZOp Float → State × Except WrongType Nat
  | .zadd members => state.zadd now key members
  | .zrem names => state.zrem now key names

/-- A sequence of commands carried out at a key, each at its own time. -/
def zops (state : State) (key : Bytes) (turns : List (Instant × ZOp Float)) : State :=
  turns.foldl (fun state turn => (state.zop turn.1 key turn.2).1) state

/-- What a key holds from some time on, as long as nothing is done to it. -/
def HoldsFrom (state : State) (start : Instant) (key : Bytes) (held : Option (SortedSet Float)) :
    Prop :=
  ∀ now, start ≤ now →
    (state.live now key).map Entry.cell = held.map fun set => ⟨.sortedSet set, none⟩

theorem holdsFrom_none (absent : state.live start key = none) : state.HoldsFrom start key none := by
  intro now later
  rw [Option.map_none, Option.map_eq_none_iff]
  rw [live] at absent ⊢
  cases held : state.entries[key]? with
  | none => rfl
  | some entry =>
    obtain ⟨data, expiresAt, version⟩ := entry
    cases expiresAt with
    | none => simp [held, unexpired, Entry.hasExpired] at absent
    | some deadline =>
      have passed : deadline ≤ start := by
        simpa [held, unexpired, Entry.hasExpired] using absent
      simp [unexpired, Entry.hasExpired, passed.trans later]

/-- An entry without a deadline is the same at any time. -/
theorem unexpired_stamp (now : Instant) (version : Nat) (wrote : Bool) (old : Option Entry)
    (held : Option (SortedSet Float)) :
    (unexpired now (stamp version wrote old
      (held.map fun set => (⟨.sortedSet set, none⟩ : Cell)))).map Entry.cell =
        held.map fun set => ⟨.sortedSet set, none⟩ := by
  cases held <;> rfl

theorem HoldsFrom.of_acts {after : State} {clock : Clock} {held' : Option (SortedSet Float)}
    (holds : state.HoldsFrom start key held) (later : start ≤ clock.now) {op : KeyOp}
    {reply reply' : op.Reply} (acts : Acts clock key op state after reply)
    (act : op.act clock (held.map fun set => ⟨.sortedSet set, none⟩) =
      some (held'.map fun set => ⟨.sortedSet set, none⟩, reply')) :
    after.HoldsFrom start key held' ∧ reply = reply' := by
  obtain ⟨cell, acted, left⟩ := acts.cell
  rw [holds clock.now later, act, Option.some.injEq, Prod.mk.injEq] at acted
  obtain ⟨rfl, rfl⟩ := acted
  refine ⟨fun now nowLater => ?_, rfl⟩
  rcases left with stamped | ⟨rfl, -, same⟩
  · rw [live, stamped, unexpired_stamp]
  · rw [holds now nowLater, same, holds clock.now later]

theorem HoldsFrom.zop {now : Instant} (holds : state.HoldsFrom start key held) (later : start ≤ now)
    (op : ZOp Float) :
    (state.zop now key op).1.HoldsFrom start key (op.act held).1 ∧
      (state.zop now key op).2 = .ok (op.act held).2 := by
  have later' : start ≤ (⟨now, 0⟩ : Clock).now := later
  cases op with
  | zadd members =>
    refine holds.of_acts later' (zadd_acts members) ?_
    cases held <;> rfl
  | zrem names =>
    refine holds.of_acts later' (zrem_acts names) ?_
    cases held with
    | none => rfl
    | some set =>
      by_cases empty : (set.takeAll names).1.isEmpty <;>
        simp [KeyOp.act, Cell.zrem, ZOp.act, empty]

theorem HoldsFrom.zops (holds : state.HoldsFrom start key held) {turns : List (Instant × ZOp Float)}
    (later : ∀ turn ∈ turns, start ≤ turn.1) :
    (state.zops key turns).HoldsFrom start key
      ((turns.map Prod.snd).foldl (fun held op => (op.act held).1) held) := by
  induction turns generalizing state held with
  | nil => exact holds
  | cons turn turns ih =>
    exact ih (holds.zop (later turn (by simp)) turn.2).1
      fun other inTurns => later other (by simp [inTurns])

/-- The store answers for a key as what is held there does. -/
structure AnswersFor (state : State) (now : Instant) (key : Bytes)
    (held : Option (SortedSet Float)) : Prop where
  counts : ∀ op, (state.zop now key op).2 = .ok (op.act held).2
  zmembers : (state.zmembers now key).2 =
    .ok ((held.getD []).map fun member => (member.name, member.score))
  zcard : (state.zcard now key).2 = .ok (held.getD []).length
  zscore : ∀ name, (state.zscore now key name).2 = .ok ((held.getD []).score name)
  zrank : ∀ name, (state.zrank now key name).2 = .ok ((held.getD []).at name)
  zrange : ∀ start stop, (state.zrange now key start stop).2 =
    .ok ((window start stop (held.getD [])).map Member.name)
  «exists» : (state.live now key).isSome = held.isSome

theorem HoldsFrom.answersFor {now : Instant} (holds : state.HoldsFrom start key held)
    (later : start ≤ now) : state.AnswersFor now key held := by
  have isHeld := holds now later
  have asked {α : Type} (question : SortedSet Float → α) :
      (state.asked now key question).2 = .ok (question (held.getD [])) := by
    rw [@asked_eq ⟨now, 0⟩, isHeld]
    cases held <;> rfl
  refine ⟨fun op => (holds.zop later op).2, asked _, asked _, fun _ => asked _, fun _ => asked _,
    fun _ _ => asked _, ?_⟩
  have there := congrArg Option.isSome isHeld
  rwa [Option.isSome_map, Option.isSome_map] at there

end State

/-- Whatever scores are taken from, what a sequence of commands leaves is the one picture of
the map it gives.  The store holds that at a key nothing was held at, and answers for it. -/
theorem sortedSets_canonical :
    (∀ (σ : Type) [Score σ] (ops : List (ZOp σ)), (∀ op ∈ ops, op.Sent) → ZOp.Exact ops) ∧
      ∀ (state : State) (start : Instant) (key : Bytes) (turns : List (Instant × ZOp Float)),
        state.live start key = none → (∀ turn ∈ turns, start ≤ turn.1) →
          ∀ now, start ≤ now →
            (state.zops key turns).AnswersFor now key (ZOp.leave (turns.map Prod.snd)) :=
  ⟨fun _ _ _ sent => ZOp.exact sent, fun _ _ _ _ absent later _ reached =>
    ((State.holdsFrom_none absent).zops later).answersFor reached⟩

/-- Whole numbers for scores. -/
abbrev wholeScores : Score Nat := Score.ofLinearOrder Nat

/-- Two members of one score, one of which is given another while the other leaves, and a
store that is asked to put something in. -/
theorem sortedSets_canonical_moved :
    @ZOp.Exact Nat wholeScores [.zadd [(1, [98]), (1, [97]), (2, [97])], .zrem [[99], [98]]] ∧
      @ZOp.leave Nat wholeScores [.zadd [(1, [98]), (1, [97]), (2, [97])], .zrem [[99], [98]]] =
        some [⟨2, [97]⟩] ∧
      (State.zops {} [107] [(5, .zadd [(1.5, [97])]), (6, .zrem [[98]])]).AnswersFor 7 [107]
        (some [⟨1.5, [97]⟩]) := by
  obtain ⟨generic, inStore⟩ := sortedSets_canonical
  refine ⟨@generic Nat wholeScores _ ?_, by decide,
    inStore {} 5 [107] [(5, .zadd [(1.5, [97])]), (6, .zrem [[98]])] rfl (by decide) 7 (by decide)⟩
  intro op inOps
  simp only [List.mem_cons, List.not_mem_nil, or_false] at inOps
  rcases inOps with rfl | rfl
  · exact ⟨by simp, fun _ _ => rfl⟩
  · trivial

end RedisServer
