import RedisServer.Glob
import RedisServer.Lib.Wildcard

/-!
# What a pattern stands for

A pattern read naively: one item after another, each standing for a language, and the whole
for their product.  The matcher, which merges runs and remembers only the last one met,
answers for every key, and answers whether the key is in that product.
-/

namespace RedisServer

variable {fuel item byte : Nat} {inside rest key : Bytes} {pattern : Pattern} {found : UInt8}
  {run : Option (Nat × Nat)}

namespace Item

/-- The bytes an item other than a run stands for. -/
def stands : Item → Set UInt8
  | .anything => Set.univ
  | .one => Set.univ
  | .byte expected => {expected}
  | .oneOf ranges negated =>
    { byte | (∃ range ∈ ranges, range.1 ≤ byte ∧ byte ≤ range.2) ↔ negated = false }

/-- The words an item stands for. -/
def language : Item → Language UInt8
  | .anything => ⊤
  | item => { word | ∃ byte ∈ item.stands, word = [byte] }

/-- An item as a piece of a pattern. -/
def piece : Item → Wildcard.Piece UInt8
  | .anything => none
  | item => some item.matches

theorem piece_of_ne {item : Item} (isOne : item ≠ .anything) : item.piece = some item.matches := by
  cases item with
  | anything => exact absurd rfl isOne
  | one | byte _ | oneOf _ _ => rfl

theorem piece_eq_none {item : Item} : item.piece = none ↔ item = .anything := by
  cases item <;> simp [piece]

theorem matches_iff (item : Item) (byte : UInt8) : item.matches byte ↔ byte ∈ item.stands := by
  cases item with
  | anything | one => exact iff_of_true rfl trivial
  | byte expected =>
    rw [«matches», stands, beq_iff_eq]
    exact eq_comm
  | oneOf ranges negated =>
    rw [«matches», stands, Set.mem_ofPred_eq]
    cases negated <;> simp

theorem language_piece (item : Item) : item.piece.language = item.language := by
  have one (item : Item) : Wildcard.Piece.language (some item.matches) =
      { word | ∃ byte ∈ item.stands, word = [byte] } := by
    ext word
    simp only [Wildcard.Piece.language, matches_iff]
  cases item with
  | anything => rfl
  | one | byte _ | oneOf _ _ => exact one _

end Item

namespace Pattern

/-- The words items stand for one after another. -/
def language (items : List Item) : Language UInt8 := (items.map Item.language).prod

theorem language_eq (items : List Item) :
    Wildcard.language (items.map Item.piece) = language items := by
  rw [Wildcard.language, language, List.map_map]
  congr 2
  funext item
  exact item.language_piece

/-! ## Reading a pattern -/

/-- The byte named at the front of what stands in brackets. -/
inductive Names : Bytes → UInt8 → Bytes → Prop where
  | escaped (byte : UInt8) (rest : Bytes) : Names (92 :: byte :: rest) byte rest
  | itself {byte : UInt8} {rest : Bytes} (plain : byte = 92 → rest = []) :
      Names (byte :: rest) byte rest

/-- The ranges that stand in brackets, up to the bracket that closes them. -/
inductive Ranges : Bytes → List (UInt8 × UInt8) → Bytes → Prop where
  | unclosed : Ranges [] [] []
  | closed (rest : Bytes) : Ranges (93 :: rest) [] rest
  | range {inside rest after : Bytes} {first last : UInt8} {ranges : List (UInt8 × UInt8)}
      (isOpen : inside.head? ≠ some 93) (named : Names inside first (45 :: last :: rest))
      (isLast : last ≠ 93) (others : Ranges rest ranges after) :
      Ranges inside ((if first ≤ last then (first, last) else (last, first)) :: ranges) after
  | single {inside rest after : Bytes} {first : UInt8} {ranges : List (UInt8 × UInt8)}
      (isOpen : inside.head? ≠ some 93) (named : Names inside first rest)
      (noRange : ∀ last more, rest = 45 :: last :: more → last = 93)
      (others : Ranges rest ranges after) : Ranges inside ((first, first) :: ranges) after

/-- The items of a pattern, one for each thing that stands in it. -/
inductive Reads : Bytes → List Item → Prop where
  | done : Reads [] []
  | run {rest : Bytes} {items : List Item} (others : Reads rest items) :
      Reads (42 :: rest) (.anything :: items)
  | one {rest : Bytes} {items : List Item} (others : Reads rest items) :
      Reads (63 :: rest) (.one :: items)
  | escaped (byte : UInt8) {rest : Bytes} {items : List Item} (others : Reads rest items) :
      Reads (92 :: byte :: rest) (.byte byte :: items)
  | loneEscape : Reads [92] [.byte 92]
  | oneOf {inside rest : Bytes} {ranges : List (UInt8 × UInt8)} {items : List Item}
      (affirmed : inside.head? ≠ some 94) (named : Ranges inside ranges rest)
      (others : Reads rest items) : Reads (91 :: inside) (.oneOf ranges false :: items)
  | noneOf {inside rest : Bytes} {ranges : List (UInt8 × UInt8)} {items : List Item}
      (named : Ranges inside ranges rest) (others : Reads rest items) :
      Reads (91 :: 94 :: inside) (.oneOf ranges true :: items)
  | byte {byte : UInt8} {rest : Bytes} {items : List Item}
      (plain : byte ≠ 42 ∧ byte ≠ 63 ∧ byte ≠ 91 ∧ byte ≠ 92) (others : Reads rest items) :
      Reads (byte :: rest) (.byte byte :: items)

theorem Names.length_lt {first : UInt8} (named : Names inside first rest) :
    rest.length < inside.length := by
  cases named with
  | escaped byte rest =>
    simp only [List.length_cons]
    omega
  | itself plain => simp

/-- Some byte stands at the front of anything not yet closed. -/
theorem exists_names (byte : UInt8) (rest : Bytes) :
    ∃ first after, Names (byte :: rest) first after := by
  by_cases escape : byte = 92
  · subst escape
    cases rest with
    | nil => exact ⟨92, [], .itself fun _ => rfl⟩
    | cons escaped rest => exact ⟨escaped, rest, .escaped escaped rest⟩
  · exact ⟨byte, rest, .itself fun isEscape => absurd isEscape escape⟩

/-- What follows a byte named in brackets is a range that starts there or is not. -/
theorem range_or_single (rest : Bytes) :
    (∃ last more, rest = 45 :: last :: more ∧ last ≠ 93) ∨
      ∀ last more, rest = 45 :: last :: more → last = 93 := by
  by_contra! neither
  obtain ⟨no, last, more, isRange, isLast⟩ := neither
  exact isLast (no last more isRange)

theorem exists_ranges (inside : Bytes) : ∃ ranges after, Ranges inside ranges after := by
  induction size : inside.length using Nat.strong_induction_on generalizing inside with
  | _ size ih =>
    cases inside with
    | nil => exact ⟨[], [], .unclosed⟩
    | cons byte tail =>
      by_cases closes : byte = 93
      · subst closes
        exact ⟨[], tail, .closed tail⟩
      have isOpen : (byte :: tail).head? ≠ some 93 := by simpa using closes
      obtain ⟨first, rest, named⟩ := exists_names byte tail
      have shorter := named.length_lt
      rcases range_or_single rest with ⟨last, more, rfl, isLast⟩ | noRange
      · simp only [List.length_cons] at shorter size
        obtain ⟨ranges, after, others⟩ := ih more.length (by omega) more rfl
        exact ⟨_, after, .range isOpen named isLast others⟩
      · obtain ⟨ranges, after, others⟩ := ih rest.length (by omega) rest rfl
        exact ⟨_, after, .single isOpen named noRange others⟩

theorem Ranges.length_le {after : Bytes} {ranges : List (UInt8 × UInt8)}
    (named : Ranges inside ranges after) : after.length ≤ inside.length := by
  induction named with
  | unclosed => exact Nat.le_refl _
  | closed rest => exact Nat.le_succ _
  | range isOpen named isLast others ih =>
    have shorter := named.length_lt
    simp only [List.length_cons] at shorter
    omega
  | single isOpen named noRange others ih =>
    have shorter := named.length_lt
    omega

/-- Every pattern can be read. -/
theorem exists_reads (pattern : Bytes) : ∃ items, Reads pattern items := by
  induction size : pattern.length using Nat.strong_induction_on generalizing pattern with
  | _ size ih =>
    cases pattern with
    | nil => exact ⟨[], .done⟩
    | cons byte rest =>
      simp only [List.length_cons] at size
      obtain ⟨items, others⟩ := ih rest.length (by omega) rest rfl
      by_cases isRun : byte = 42
      · exact ⟨_, isRun ▸ others.run⟩
      by_cases isOne : byte = 63
      · exact ⟨_, isOne ▸ others.one⟩
      by_cases isSet : byte = 91
      · subst isSet
        by_cases negated : rest.head? = some 94
        · obtain ⟨inside, rfl⟩ := List.head?_eq_some_iff.mp negated
          obtain ⟨ranges, after, named⟩ := exists_ranges inside
          have shorter := named.length_le
          simp only [List.length_cons] at size
          obtain ⟨items, others⟩ := ih after.length (by omega) after rfl
          exact ⟨_, .noneOf named others⟩
        · obtain ⟨ranges, after, named⟩ := exists_ranges rest
          have shorter := named.length_le
          obtain ⟨items, others⟩ := ih after.length (by omega) after rfl
          exact ⟨_, .oneOf negated named others⟩
      by_cases isEscape : byte = 92
      · subst isEscape
        cases rest with
        | nil => exact ⟨_, .loneEscape⟩
        | cons escaped rest =>
          simp only [List.length_cons] at size
          obtain ⟨items, others⟩ := ih rest.length (by omega) rest rfl
          exact ⟨_, .escaped escaped others⟩
      exact ⟨_, .byte ⟨isRun, isOne, isSet, isEscape⟩ others⟩

/-! ## What the reader makes of it -/

/-- What the reader makes of a byte named in brackets, given the rest. -/
theorem setRanges_of_names {first : UInt8} (fuel : Nat) (isOpen : inside.head? ≠ some 93)
    (named : Names inside first rest) :
    setRanges (fuel + 1) inside =
      let (last, rest) :=
        match rest with
        | dash :: stop :: more =>
          if dash = 45 ∧ stop ≠ 93 then (stop, more) else (first, rest)
        | _ => (first, rest)
      ((if first ≤ last then (first, last) else (last, first)) :: (setRanges fuel rest).1,
        (setRanges fuel rest).2) := by
  cases named with
  | escaped byte rest => rfl
  | itself plain =>
    have still : first ≠ 93 := by simpa using isOpen
    cases rest with
    | nil => rw [setRanges.eq_4, if_neg still]
    | cons next rest =>
      have unescaped : first ≠ 92 := fun isEscape => by simpa using plain isEscape
      rw [setRanges.eq_3, if_neg still]
      simp only [if_neg unescaped]
      rfl

theorem Ranges.setRanges_eq {after : Bytes} {ranges : List (UInt8 × UInt8)}
    (named : Ranges inside ranges after) (enough : inside.length ≤ fuel) :
    setRanges fuel inside = (ranges, after) := by
  induction named generalizing fuel with
  | unclosed => cases fuel <;> rfl
  | closed rest =>
    obtain ⟨fuel, rfl⟩ := Nat.exists_eq_add_one_of_ne_zero (n := fuel) (by
      simp only [List.length_cons] at enough
      omega)
    rfl
  | range isOpen named isLast others ih =>
    have shorter := named.length_lt
    simp only [List.length_cons] at shorter
    obtain ⟨fuel, rfl⟩ := Nat.exists_eq_add_one_of_ne_zero (n := fuel) (by omega)
    rw [setRanges_of_names fuel isOpen named]
    simp only [isLast, ne_eq, not_false_eq_true, and_self, if_true,
      ih (show _ ≤ fuel by omega)]
  | @single inside rest after first ranges isOpen named noRange others ih =>
    have shorter := named.length_lt
    obtain ⟨fuel, rfl⟩ := Nat.exists_eq_add_one_of_ne_zero (n := fuel) (by omega)
    rw [setRanges_of_names fuel isOpen named]
    have read := ih (show _ ≤ fuel by omega)
    rcases rest with _ | ⟨dash, _ | ⟨stop, more⟩⟩
    · simp only [read, ite_self]
    · simp only [read, ite_self]
    · have noLast : ¬ (dash = 45 ∧ stop ≠ 93) := by
        rintro ⟨rfl, isLast⟩
        exact isLast (noRange stop more rfl)
      simp only [if_neg noLast, read, ite_self]

/-- What the reader makes of an opening bracket that is not turned on its head. -/
theorem set_eq (affirmed : inside.head? ≠ some 94) :
    set inside = (.oneOf (setRanges inside.length inside).1 false,
      (setRanges inside.length inside).2) := by
  rw [set]
  rintro rest rfl
  exact affirmed rfl

theorem language_cons_congr {first second : List Item} (item : Item)
    (same : language first = language second) :
    language (item :: first) = language (item :: second) := by
  rw [language, language, List.map_cons, List.map_cons, List.prod_cons, List.prod_cons]
  exact congrArg (item.language * ·) same

theorem language_anything_anything (items : List Item) :
    language (.anything :: .anything :: items) = language (.anything :: items) := by
  rw [← language_eq, ← language_eq]
  exact Wildcard.language_run_run _

theorem exists_turn {byte : UInt8} (enough : (byte :: rest).length ≤ fuel) :
    ∃ less, fuel = less + 1 ∧ rest.length ≤ less := by
  rw [List.length_cons] at enough
  exact ⟨fuel - 1, by omega, by omega⟩

/-- The items the reader keeps stand for what those of the pattern stand for, whether or not
a run has just been read. -/
theorem Reads.language_parseItems {pattern : Bytes} {items : List Item}
    (reads : Reads pattern items) (enough : pattern.length ≤ fuel) :
    language (parseItems fuel false pattern) = language items ∧
      language (.anything :: parseItems fuel true pattern) = language (.anything :: items) := by
  -- only a run is read otherwise after a run: any other item is kept either way
  have kept {pattern : Bytes} {items : List Item} {fuel : Nat} (item : Item) (rest : Bytes)
      (same : language (parseItems fuel false rest) = language items)
      (read : ∀ run, parseItems (fuel + 1) run pattern = item :: parseItems fuel false rest) :
      language (parseItems (fuel + 1) false pattern) = language (item :: items) ∧
        language (.anything :: parseItems (fuel + 1) true pattern) =
          language (.anything :: item :: items) := by
    rw [read, read]
    have kept := language_cons_congr item same
    exact ⟨kept, language_cons_congr .anything kept⟩
  induction reads generalizing fuel with
  | done => cases fuel <;> exact ⟨rfl, rfl⟩
  | run others ih =>
    obtain ⟨fuel, rfl, within⟩ := exists_turn enough
    have merged := (ih within).2
    refine ⟨merged, ?_⟩
    rw [language_anything_anything]
    exact merged
  | one others ih =>
    obtain ⟨fuel, rfl, within⟩ := exists_turn enough
    exact kept _ _ (ih within).1 fun _ => rfl
  | escaped byte others ih =>
    obtain ⟨fuel, rfl, within⟩ := exists_turn enough
    exact kept _ _ (ih (Nat.le_of_succ_le within)).1 fun _ => rfl
  | loneEscape =>
    obtain ⟨fuel, rfl, -⟩ := exists_turn enough
    exact ⟨rfl, rfl⟩
  | oneOf affirmed named others ih =>
    obtain ⟨fuel, rfl, within⟩ := exists_turn enough
    refine kept _ _ (ih (named.length_le.trans within)).1 fun run => ?_
    have read := set_eq affirmed
    rw [named.setRanges_eq le_rfl] at read
    exact congrArg (fun read => read.1 :: parseItems fuel false read.2) read
  | noneOf named others ih =>
    obtain ⟨fuel, rfl, within⟩ := exists_turn enough
    refine kept _ _ (ih (named.length_le.trans (Nat.le_of_succ_le within))).1 fun run => ?_
    have read : set (94 :: _) = (Item.oneOf _ true, _) :=
      congrArg (fun read => (Item.oneOf read.1 true, read.2)) (named.setRanges_eq le_rfl)
    exact congrArg (fun read => read.1 :: parseItems fuel false read.2) read
  | byte plain others ih =>
    obtain ⟨fuel, rfl, within⟩ := exists_turn enough
    refine kept _ _ (ih within).1 fun run => ?_
    obtain ⟨noRun, noOne, noSet, noEscape⟩ := plain
    simp only [parseItems, if_neg noRun, if_neg noOne, if_neg noSet, if_neg noEscape]

/-! ## What the matcher answers -/

/-- What the matcher does where nothing fits: it lets the last run take one more byte. -/
def startAgain (pattern : Pattern) (key : Bytes) (fuel : Nat) : Option (Nat × Nat) → Option Bool
  | some (place, taken) =>
    matchLoop pattern key fuel (place + 1) (taken + 1) (some (place, taken + 1))
  | none => some false

theorem matchLoop_end (isByte : key[byte]? = some found) (spent : pattern[item]? = none) :
    matchLoop pattern key (fuel + 1) item byte run = startAgain pattern key fuel run := by
  simp only [matchLoop, isByte, spent]
  rfl

theorem matchLoop_run (isByte : key[byte]? = some found)
    (isItem : pattern[item]? = some .anything) :
    matchLoop pattern key (fuel + 1) item byte run =
      matchLoop pattern key fuel (item + 1) byte (some (item, byte)) := by
  simp only [matchLoop, isByte, isItem]

theorem matchLoop_step {step : Item} (isByte : key[byte]? = some found)
    (isItem : pattern[item]? = some step) (isOne : step ≠ .anything) :
    matchLoop pattern key (fuel + 1) item byte run =
      if step.matches found then matchLoop pattern key fuel (item + 1) (byte + 1) run
      else startAgain pattern key fuel run := by
  simp only [matchLoop, isByte, isItem]
  cases step with
  | anything => exact absurd rfl isOne
  | one | byte _ | oneOf _ _ => rfl

/-- From any place the matcher may have come to it answers, and whether a way is open. -/
theorem matchLoop_eq (pattern : Pattern) (key : Bytes) (fuel : Nat) (attempt : Wildcard.Attempt)
    (sound : attempt.Sound (pattern.map Item.piece) key)
    (enough : attempt.bound (pattern.map Item.piece) key < fuel) :
    ∃ answer, matchLoop pattern key fuel attempt.piece attempt.symbol attempt.run = some answer ∧
      (answer = true ↔ attempt.Open (pattern.map Item.piece) key) := by
  induction fuel generalizing attempt with
  | zero => exact absurd enough (Nat.not_lt_zero _)
  | succ fuel ih =>
    -- what is done when nothing fits here, said once for the two ways it can happen
    have retried (inside : attempt.symbol < key.length)
        (fails : key.drop attempt.symbol ∉
          Wildcard.language ((pattern.map Item.piece).drop attempt.piece)) :
        ∃ answer, startAgain pattern key fuel attempt.run = some answer ∧
          (answer = true ↔ attempt.Open (pattern.map Item.piece) key) := by
      cases isRun : attempt.run with
      | none =>
        refine ⟨false, rfl, iff_of_false Bool.false_ne_true ?_⟩
        rintro (fits | ⟨place, taken, some_, -⟩)
        · exact fails fits
        · simp [isRun] at some_
      | some last =>
        obtain ⟨place, taken⟩ := last
        have less := sound.bound_retry isRun
        obtain ⟨still, sameOpen⟩ := sound.retry inside fails isRun
        obtain ⟨answer, isAnswer, means⟩ := ih _ still (by omega)
        exact ⟨answer, isAnswer, means.trans sameOpen⟩
    cases isSymbol : key[attempt.symbol]? with
    | none =>
      have ended := List.getElem?_eq_none_iff.mp isSymbol
      have inPattern := sound.inPattern
      rw [List.length_map] at inPattern
      unfold matchLoop
      rw [isSymbol]
      refine ⟨_, if_neg (Nat.not_lt.mpr inPattern), ?_⟩
      simp only [sound.open_iff_of_end ended, ← List.map_drop, List.forall_mem_map,
        Item.piece_eq_none, List.all_eq_true, decide_eq_true_eq]
    | some found =>
      have inside := (List.getElem?_eq_some_iff.mp isSymbol).1
      cases isItem : pattern[attempt.piece]? with
      | none =>
        rw [matchLoop_end isSymbol isItem]
        refine retried inside (Wildcard.Attempt.fails_of_end ?_ inside)
        rw [List.getElem?_map, isItem, Option.map_none]
      | some item =>
        have isPiece : (pattern.map Item.piece)[attempt.piece]? = some item.piece := by
          rw [List.getElem?_map, isItem, Option.map_some]
        have within := (List.getElem?_eq_some_iff.mp isPiece).1
        by_cases isRun : item = .anything
        · subst isRun
          rw [matchLoop_run isSymbol isItem]
          have less := sound.bound_meet within
          obtain ⟨still, sameOpen⟩ := sound.meet isPiece
          obtain ⟨answer, isAnswer, means⟩ := ih _ still (by omega)
          exact ⟨answer, isAnswer, means.trans sameOpen⟩
        · rw [matchLoop_step isSymbol isItem isRun]
          rw [Item.piece_of_ne isRun] at isPiece
          cases passes : item.matches found with
          | false => exact retried inside (Wildcard.Attempt.fails_of_test isPiece isSymbol passes)
          | true =>
            have less := @Wildcard.Attempt.bound_pass _ _ key _ within (attempt.symbol + 1)
            obtain ⟨still, sameOpen⟩ := sound.pass isPiece isSymbol passes
            obtain ⟨answer, isAnswer, means⟩ := ih _ still (by omega)
            exact ⟨answer, isAnswer, means.trans sameOpen⟩

/-- The matcher answers for every key, and answers whether the key is one the pattern, read
item by item, stands for. -/
theorem scan_exact (pattern : Bytes) :
    (∃ items, Reads pattern items) ∧
      ∀ items, Reads pattern items → ∀ key, ∃ answer,
        (parse pattern).scan key = some answer ∧ (parse pattern).matches key = answer ∧
          (answer = true ↔ key ∈ language items) := by
  refine ⟨exists_reads pattern, fun items reads key => ?_⟩
  have start := Wildcard.Attempt.sound_start ((parse pattern).map Item.piece) key
  obtain ⟨answer, isAnswer, means⟩ := matchLoop_eq (parse pattern) key
    ((key.length + 2) * ((parse pattern).length + 2)) _ start (by
      have split : (key.length + 2) * ((parse pattern).length + 2) =
          (key.length + 1) * ((parse pattern).length + 2) + ((parse pattern).length + 2) := by ring
      simp only [Wildcard.Attempt.bound, List.length_map, Option.map_none, Option.getD_none,
        Nat.sub_zero]
      omega)
  have scanned : (parse pattern).scan key = some answer := isAnswer
  refine ⟨answer, scanned, by rw [«matches», scanned, Option.getD_some], ?_⟩
  rw [means, Wildcard.Attempt.open_start, language_eq]
  exact iff_of_eq (congrArg (key ∈ ·) (reads.language_parseItems le_rfl).1)

/-- `*b` is read as a run and a byte, and stands for `ab`. -/
theorem scan_exact_suffix :
    Reads [42, 98] [.anything, .byte 98] ∧ (parse [42, 98]).matches [97, 98] = true ∧
      [97, 98] ∈ language [.anything, .byte 98] := by
  have reads : Reads [42, 98] [.anything, .byte 98] := .run (.byte (by decide) .done)
  obtain ⟨answer, -, isMatch, means⟩ := (scan_exact [42, 98]).2 _ reads [97, 98]
  have found : (parse [42, 98]).matches [97, 98] = true := by decide
  exact ⟨reads, found, means.mp (isMatch.symm.trans found)⟩

end Pattern

end RedisServer
