import Mathlib

/-!
# Patterns of single symbols and runs

A pattern is a list of pieces, each of which stands for one symbol that passes a test or for
any run of symbols.  What it stands for is the product of the languages of its pieces.

Whoever tries a pattern from left to right need only remember the last run met: what comes
between two runs has a fixed length, so that a later start of the first run leaves the
second run no more than an earlier one does.
-/

namespace Wildcard

variable {α : Type}

/-- A test one symbol has to pass, or a run. -/
abbrev Piece (α : Type) := Option (α → Bool)

def Piece.language : Piece α → Language α
  | none => ⊤
  | some test => { word | ∃ symbol, test symbol ∧ word = [symbol] }

/-- What a pattern stands for. -/
def language (pieces : List (Piece α)) : Language α := (pieces.map Piece.language).prod

@[simp] theorem mem_language_nil {word : List α} :
    word ∈ language ([] : List (Piece α)) ↔ word = [] :=
  Language.mem_one word

theorem mem_language_one {test : α → Bool} {pieces : List (Piece α)} {word : List α} :
    word ∈ language (some test :: pieces) ↔
      ∃ symbol rest, word = symbol :: rest ∧ test symbol ∧ rest ∈ language pieces := by
  rw [language, List.map_cons, List.prod_cons, Language.mem_mul]
  constructor
  · rintro ⟨_, ⟨symbol, passes, rfl⟩, rest, isRest, rfl⟩
    exact ⟨symbol, rest, rfl, passes, isRest⟩
  · rintro ⟨symbol, rest, rfl, passes, isRest⟩
    exact ⟨[symbol], ⟨symbol, passes, rfl⟩, rest, isRest, rfl⟩

theorem mem_language_run {pieces : List (Piece α)} {word : List α} :
    word ∈ language (none :: pieces) ↔ ∃ taken, word.drop taken ∈ language pieces := by
  rw [language, List.map_cons, List.prod_cons, Language.mem_mul]
  constructor
  · rintro ⟨front, -, rest, isRest, rfl⟩
    exact ⟨front.length, by rwa [List.drop_left]⟩
  · rintro ⟨taken, isRest⟩
    exact ⟨word.take taken, True.intro, word.drop taken, isRest, List.take_append_drop _ _⟩

/-- A run that starts in a word ends in it. -/
theorem drop_mem_language_run {pieces : List (Piece α)} {word : List α} {start : Nat}
    (inside : start ≤ word.length) :
    word.drop start ∈ language (none :: pieces) ↔
      ∃ stop, start ≤ stop ∧ stop ≤ word.length ∧ word.drop stop ∈ language pieces := by
  rw [mem_language_run]
  constructor
  · rintro ⟨taken, isRest⟩
    rw [List.drop_drop] at isRest
    by_cases within : start + taken ≤ word.length
    · exact ⟨start + taken, by omega, within, isRest⟩
    · have spent : word.drop (start + taken) = [] := List.drop_eq_nil_of_le (by omega)
      rw [spent] at isRest
      exact ⟨word.length, inside, le_rfl, by rwa [List.drop_length]⟩
  · rintro ⟨stop, later, -, isRest⟩
    exact ⟨stop - start, by rwa [List.drop_drop, Nat.add_sub_cancel' later]⟩

/-- One run after another stands for no more than one. -/
theorem language_run_run (pieces : List (Piece α)) :
    language (none :: none :: pieces) = language (none :: pieces) := by
  ext word
  simp only [mem_language_run]
  constructor
  · rintro ⟨first, second, isRest⟩
    exact ⟨first + second, by rwa [List.drop_drop] at isRest⟩
  · rintro ⟨taken, isRest⟩
    exact ⟨taken, 0, by rwa [List.drop_zero]⟩

/-- The empty word is what a pattern of runs stands for. -/
theorem nil_mem_language {pieces : List (Piece α)} :
    [] ∈ language pieces ↔ ∀ piece ∈ pieces, piece = none := by
  induction pieces with
  | nil => simp
  | cons piece pieces ih =>
    cases piece with
    | none => simp [mem_language_run, ih]
    | some test => simp [mem_language_one]

/-- What is left of a word once pieces of one symbol each have been met. -/
theorem drop_mem_of_solid {front pieces : List (Piece α)} {word : List α}
    (solid : ∀ piece ∈ front, piece ≠ none) (isWord : word ∈ language (front ++ pieces)) :
    front.length ≤ word.length ∧ word.drop front.length ∈ language pieces := by
  induction front generalizing word with
  | nil => exact ⟨Nat.zero_le _, isWord⟩
  | cons piece front ih =>
    cases piece with
    | none => exact absurd rfl (solid none (by simp))
    | some test =>
      obtain ⟨symbol, rest, rfl, -, isRest⟩ := mem_language_one.mp isWord
      obtain ⟨long, left⟩ := ih (fun piece member => solid piece (by simp [member])) isRest
      exact ⟨Nat.succ_le_succ long, left⟩

/-! ## Trying from left to right -/

/-- How far an attempt has got: the pieces and symbols gone past, and the last run met with
the symbols gone past when it was met. -/
structure Attempt where
  piece : Nat
  symbol : Nat
  run : Option (Nat × Nat)

namespace Attempt

/-- Between the last run and where the attempt is, pieces of one symbol have each met
theirs. -/
structure Sound (pieces : List (Piece α)) (word : List α) (attempt : Attempt) : Prop where
  inPattern : attempt.piece ≤ pieces.length
  inWord : attempt.symbol ≤ word.length
  run : ∀ place taken, attempt.run = some (place, taken) → place < attempt.piece ∧
    taken + attempt.piece = attempt.symbol + (place + 1) ∧
    ∀ piece ∈ (pieces.drop (place + 1)).take (attempt.piece - (place + 1)), piece ≠ none

/-- What is still to be tried: going on from here, or handing the last run more. -/
def Open (pieces : List (Piece α)) (word : List α) (attempt : Attempt) : Prop :=
  word.drop attempt.symbol ∈ language (pieces.drop attempt.piece) ∨
    ∃ place taken, attempt.run = some (place, taken) ∧ ∃ more, taken < more ∧
      more ≤ word.length ∧ word.drop more ∈ language (pieces.drop (place + 1))

/-- A bound on the number of steps an attempt still takes. -/
def bound (pieces : List (Piece α)) (word : List α) (attempt : Attempt) : Nat :=
  (word.length + 1 - (attempt.run.map Prod.snd).getD 0) * (pieces.length + 2) +
    (pieces.length + 1 - attempt.piece)

variable {pieces : List (Piece α)} {piece : Piece α} {word : List α} {attempt : Attempt}

theorem sound_start (pieces : List (Piece α)) (word : List α) : Sound pieces word ⟨0, 0, none⟩ :=
  ⟨Nat.zero_le _, Nat.zero_le _, nofun⟩

theorem open_start : Open pieces word ⟨0, 0, none⟩ ↔ word ∈ language pieces := by
  simp [Open]

theorem drop_piece (isPiece : pieces[attempt.piece]? = some piece) :
    pieces.drop attempt.piece = piece :: pieces.drop (attempt.piece + 1) := by
  obtain ⟨within, rfl⟩ := List.getElem?_eq_some_iff.mp isPiece
  exact List.drop_eq_getElem_cons within

/-- The pieces after the last run are those gone past and those still to come. -/
theorem Sound.split (sound : attempt.Sound pieces word) {place taken : Nat}
    (isRun : attempt.run = some (place, taken)) :
    ∃ front, pieces.drop (place + 1) = front ++ pieces.drop attempt.piece ∧
      taken + front.length = attempt.symbol ∧ ∀ piece ∈ front, piece ≠ none := by
  obtain ⟨before, reached, solid⟩ := sound.run place taken isRun
  have inPattern := sound.inPattern
  refine ⟨_, ?_, ?_, solid⟩
  · have rest : pieces.drop attempt.piece =
        (pieces.drop (place + 1)).drop (attempt.piece - (place + 1)) := by
      rw [List.drop_drop]
      congr 1
      omega
    rw [rest, List.take_append_drop]
  · rw [List.length_take, List.length_drop]
    omega

/-- Handing the last run more gets past where the attempt is. -/
theorem Sound.later (sound : attempt.Sound pieces word) {place taken more : Nat}
    (isRun : attempt.run = some (place, taken)) (later : taken < more)
    (fits : word.drop more ∈ language (pieces.drop (place + 1))) (inside : more ≤ word.length) :
    ∃ reached, attempt.symbol < reached ∧ reached ≤ word.length ∧
      word.drop reached ∈ language (pieces.drop attempt.piece) := by
  obtain ⟨front, isSplit, reached, solid⟩ := sound.split isRun
  rw [isSplit] at fits
  obtain ⟨long, left⟩ := drop_mem_of_solid solid fits
  rw [List.length_drop] at long
  exact ⟨more + front.length, by omega, by omega, by rwa [List.drop_drop] at left⟩

/-- At the end of the word, what is left of the pattern must stand for nothing. -/
theorem Sound.open_iff_of_end (sound : attempt.Sound pieces word)
    (ended : word.length ≤ attempt.symbol) :
    attempt.Open pieces word ↔ ∀ piece ∈ pieces.drop attempt.piece, piece = none := by
  rw [← nil_mem_language, Open, List.drop_eq_nil_of_le ended, or_iff_left]
  rintro ⟨place, taken, isRun, more, later, inside, fits⟩
  obtain ⟨reached, beyond, within, -⟩ := sound.later isRun later fits inside
  omega

/-- Meeting a run: it may start here, and starting here is as good as any. -/
theorem Sound.meet (sound : attempt.Sound pieces word)
    (isRun : pieces[attempt.piece]? = some none) :
    Sound pieces word ⟨attempt.piece + 1, attempt.symbol, some (attempt.piece, attempt.symbol)⟩ ∧
      (Open pieces word
          ⟨attempt.piece + 1, attempt.symbol, some (attempt.piece, attempt.symbol)⟩ ↔
        attempt.Open pieces word) := by
  have within := (List.getElem?_eq_some_iff.mp isRun).1
  have here {start : Nat} (inside : start ≤ word.length) :
      word.drop start ∈ language (pieces.drop attempt.piece) ↔ ∃ stop, start ≤ stop ∧
        stop ≤ word.length ∧ word.drop stop ∈ language (pieces.drop (attempt.piece + 1)) := by
    rw [drop_piece isRun, drop_mem_language_run inside]
  refine ⟨⟨within, sound.inWord, ?_⟩, ?_⟩
  · rintro place taken ⟨⟩
    simp
  · constructor
    · rintro (goesOn | ⟨place, taken, ⟨⟩, more, later, inside, fits⟩)
      · exact .inl ((here sound.inWord).mpr ⟨attempt.symbol, le_rfl, sound.inWord, goesOn⟩)
      · exact .inl ((here sound.inWord).mpr ⟨more, later.le, inside, fits⟩)
    · intro stillOpen
      have started : ∃ more, attempt.symbol ≤ more ∧ more ≤ word.length ∧
          word.drop more ∈ language (pieces.drop (attempt.piece + 1)) := by
        rcases stillOpen with goesOn | ⟨place, taken, wasRun, more, later, inside, fits⟩
        · exact (here sound.inWord).mp goesOn
        · -- an earlier run handed more lets this one start later only
          obtain ⟨reached, beyond, within, fits⟩ := sound.later wasRun later fits inside
          obtain ⟨stop, after, inside, fits⟩ := (here within).mp fits
          exact ⟨stop, beyond.le.trans after, inside, fits⟩
      obtain ⟨more, reached, inside, fits⟩ := started
      rcases Nat.eq_or_lt_of_le reached with rfl | later
      · exact .inl fits
      · exact .inr ⟨_, _, rfl, more, later, inside, fits⟩

/-- A symbol passes the test of the piece it has come to. -/
theorem Sound.pass (sound : attempt.Sound pieces word) {test : α → Bool} {symbol : α}
    (isTest : pieces[attempt.piece]? = some (some test))
    (isSymbol : word[attempt.symbol]? = some symbol) (passes : test symbol) :
    Sound pieces word ⟨attempt.piece + 1, attempt.symbol + 1, attempt.run⟩ ∧
      (Open pieces word ⟨attempt.piece + 1, attempt.symbol + 1, attempt.run⟩ ↔
        attempt.Open pieces word) := by
  obtain ⟨within, isPiece⟩ := List.getElem?_eq_some_iff.mp isTest
  obtain ⟨inside, isHere⟩ := List.getElem?_eq_some_iff.mp isSymbol
  refine ⟨⟨within, inside, fun place taken isRun => ?_⟩, ?_⟩
  · obtain ⟨before, reached, solid⟩ := sound.run place taken isRun
    refine ⟨Nat.lt_succ_of_lt before, by dsimp only; omega, ?_⟩
    have longer : attempt.piece + 1 - (place + 1) = attempt.piece - (place + 1) + 1 := by omega
    have next : (pieces.drop (place + 1))[attempt.piece - (place + 1)]? = some (some test) := by
      rw [List.getElem?_drop, Nat.add_sub_cancel' before, isTest]
    dsimp only
    rw [longer, List.take_add_one, next]
    intro piece member
    rcases List.mem_append.mp member with earlier | last
    · exact solid piece earlier
    · rw [Option.toList_some, List.mem_singleton] at last
      simp [last]
  · refine or_congr_left ?_
    rw [drop_piece isTest, List.drop_eq_getElem_cons inside, isHere, mem_language_one]
    constructor
    · intro fits
      exact ⟨symbol, _, rfl, passes, fits⟩
    · rintro ⟨_, _, same, -, fits⟩
      cases same
      exact fits

/-- Nothing goes on from here, and the last run is handed one symbol more. -/
theorem Sound.retry (sound : attempt.Sound pieces word) {place taken : Nat}
    (inside : attempt.symbol < word.length)
    (fails : word.drop attempt.symbol ∉ language (pieces.drop attempt.piece))
    (isRun : attempt.run = some (place, taken)) :
    Sound pieces word ⟨place + 1, taken + 1, some (place, taken + 1)⟩ ∧
      (Open pieces word ⟨place + 1, taken + 1, some (place, taken + 1)⟩ ↔
        attempt.Open pieces word) := by
  obtain ⟨before, reached, -⟩ := sound.run place taken isRun
  have inPattern := sound.inPattern
  refine ⟨⟨by dsimp only; omega, by dsimp only; omega, ?_⟩, ?_⟩
  · rintro _ _ ⟨⟩
    simp
  · rw [Attempt.Open, Attempt.Open, or_iff_right fails]
    constructor
    · rintro (fits | ⟨_, _, ⟨⟩, more, later, within, fits⟩)
      · exact ⟨place, taken, isRun, taken + 1, Nat.lt_succ_self _, by omega, fits⟩
      · exact ⟨place, taken, isRun, more, Nat.lt_of_succ_lt later, within, fits⟩
    · rintro ⟨_, _, isRun', more, later, within, fits⟩
      obtain ⟨rfl, rfl⟩ : place = _ ∧ taken = _ := by
        simpa using isRun.symm.trans isRun'
      rcases Nat.eq_or_lt_of_le later with rfl | later
      · exact .inl fits
      · exact .inr ⟨_, _, rfl, more, later, within, fits⟩

/-- Nothing goes on from a piece whose test the symbol fails, nor past the end. -/
theorem fails_of_test {test : α → Bool} {symbol : α}
    (isTest : pieces[attempt.piece]? = some (some test))
    (isSymbol : word[attempt.symbol]? = some symbol) (failed : test symbol = false) :
    word.drop attempt.symbol ∉ language (pieces.drop attempt.piece) := by
  obtain ⟨inside, rfl⟩ := List.getElem?_eq_some_iff.mp isSymbol
  rw [drop_piece isTest, List.drop_eq_getElem_cons inside, mem_language_one]
  rintro ⟨_, _, same, passes, -⟩
  cases same
  rw [failed] at passes
  cases passes

theorem fails_of_end (spent : pieces[attempt.piece]? = none)
    (inside : attempt.symbol < word.length) :
    word.drop attempt.symbol ∉ language (pieces.drop attempt.piece) := by
  rw [List.drop_eq_nil_of_le (List.getElem?_eq_none_iff.mp spent), mem_language_nil,
    List.drop_eq_nil_iff]
  omega

/-! ### How long an attempt takes -/

theorem bound_pass (within : attempt.piece < pieces.length) (symbol : Nat) :
    bound pieces word ⟨attempt.piece + 1, symbol, attempt.run⟩ < bound pieces word attempt := by
  simp only [bound]
  omega

theorem Sound.bound_meet (sound : attempt.Sound pieces word)
    (within : attempt.piece < pieces.length) :
    bound pieces word ⟨attempt.piece + 1, attempt.symbol, some (attempt.piece, attempt.symbol)⟩ <
      bound pieces word attempt := by
  have later : (attempt.run.map Prod.snd).getD 0 ≤ attempt.symbol := by
    cases isRun : attempt.run with
    | none => exact Nat.zero_le _
    | some run =>
      obtain ⟨before, reached, -⟩ := sound.run run.1 run.2 isRun
      simp only [Option.map_some, Option.getD_some]
      omega
  have fewer := Nat.mul_le_mul_right (pieces.length + 2)
    (Nat.sub_le_sub_left later (word.length + 1))
  simp only [bound, Option.map_some, Option.getD_some]
  omega

theorem Sound.bound_retry (sound : attempt.Sound pieces word) {place taken : Nat}
    (isRun : attempt.run = some (place, taken)) :
    bound pieces word ⟨place + 1, taken + 1, some (place, taken + 1)⟩ <
      bound pieces word attempt := by
  obtain ⟨before, reached, -⟩ := sound.run place taken isRun
  have inWord := sound.inWord
  have more : word.length + 1 - taken = word.length + 1 - (taken + 1) + 1 := by omega
  simp only [bound, isRun, Option.map_some, Option.getD_some]
  rw [more, Nat.succ_mul]
  omega

end Attempt

end Wildcard
