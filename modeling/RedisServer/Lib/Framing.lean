import Mathlib

/-!
# Reading a stream of self-delimiting items

A code is self-delimiting when its reader finds an item at the front of
whatever follows it and asks for more on every proper part of one.  Reading
such a stream item by item then gives the items whose codes lie wholly inside
it, however it was cut off.
-/

namespace Framing

variable {β α ε : Type}

/-- A reader of the item at the front of a stream.  `none` asks for more of the
stream than there is. -/
abbrev Reader (β α ε : Type) := List β → Except ε (Option (α × List β))

/-- Read items until the stream is spent or holds only part of one.  `fuel`
bounds the number of items and is ample when it is the length of the stream. -/
def readAll (read : Reader β α ε) : Nat → List β → Except ε (List α)
  | 0, _ => .ok []
  | _ + 1, [] => .ok []
  | fuel + 1, head :: tail =>
    match read (head :: tail) with
    | .error error => .error error
    | .ok none => .ok []
    | .ok (some (item, rest)) =>
      (readAll read fuel rest).map (item :: ·)

/-- The reader and the code fit together on this item. -/
structure Delimits (read : Reader β α ε) (encode : α → List β) (item : α) :
    Prop where
  nonempty : encode item ≠ []
  whole : ∀ rest, read (encode item ++ rest) = .ok (some (item, rest))
  part : ∀ cut, cut < (encode item).length →
    read ((encode item).take cut) = .ok none

/-- The items whose codes lie wholly inside the first `cut` symbols. -/
def wholly (encode : α → List β) : List α → Nat → List α
  | [], _ => []
  | item :: items, cut =>
    if (encode item).length ≤ cut then
      item :: wholly encode items (cut - (encode item).length)
    else []

theorem wholly_prefix (encode : α → List β) (items : List α) (cut : Nat) :
    wholly encode items cut <+: items := by
  induction items generalizing cut with
  | nil => exact List.prefix_rfl
  | cons item items ih =>
    simp only [wholly]
    split
    · exact (List.prefix_cons_inj item).mpr (ih _)
    · exact List.nil_prefix

theorem wholly_eq_self {encode : α → List β} {items : List α} {cut : Nat}
    (enough : (items.flatMap encode).length ≤ cut) :
    wholly encode items cut = items := by
  induction items generalizing cut with
  | nil => rfl
  | cons item items ih =>
    simp only [List.flatMap_cons, List.length_append] at enough
    simp only [wholly]
    rw [if_pos (by omega), ih (by omega)]

/-- A cut past a leading run of items keeps that run. -/
theorem wholly_append (encode : α → List β) (first rest : List α) (cut : Nat)
    (enough : (first.flatMap encode).length ≤ cut) :
    wholly encode (first ++ rest) cut =
      first ++ wholly encode rest (cut - (first.flatMap encode).length) := by
  induction first generalizing cut with
  | nil => simp
  | cons item first ih =>
    simp only [List.flatMap_cons, List.length_append] at enough
    simp only [List.cons_append, wholly, List.flatMap_cons, List.length_append]
    rw [if_pos (by omega), ih _ (by omega), Nat.sub_sub]

/-- An item is kept when the cut comes no sooner than the end of its code. -/
theorem exists_wholly_eq_take (encode : α → List β) (items : List α) (cut : Nat) :
    ∃ count, wholly encode items cut = items.take count ∧ ∀ index < items.length,
      index < count ↔ ((items.take (index + 1)).flatMap encode).length ≤ cut := by
  induction items generalizing cut with
  | nil => exact ⟨0, rfl, by simp⟩
  | cons item items ih =>
    simp only [wholly]
    split
    · rename_i inside
      obtain ⟨count, isTake, kept⟩ := ih (cut - (encode item).length)
      refine ⟨count + 1, by rw [isTake, List.take_succ_cons], fun index within => ?_⟩
      cases index with
      | zero => simpa using inside
      | succ index =>
        have later := kept index (by simpa using within)
        simp only [List.take_succ_cons, List.flatMap_cons, List.length_append]
        omega
    · rename_i outside
      refine ⟨0, rfl, fun index within => ?_⟩
      simp only [List.take_succ_cons, List.flatMap_cons, List.length_append]
      omega

/-- A stream cut off anywhere is the whole items inside it, and then perhaps the
start of the item that was cut. -/
theorem take_flatMap (encode : α → List β) (items : List α) (cut : Nat) :
    (items.flatMap encode).take cut = (wholly encode items cut).flatMap encode ∨
      ∃ item ∈ items, ∃ part, 0 < part ∧ part < (encode item).length ∧
        (items.flatMap encode).take cut =
          (wholly encode items cut).flatMap encode ++ (encode item).take part := by
  induction items generalizing cut with
  | nil => simp [wholly]
  | cons item items ih =>
    simp only [List.flatMap_cons, wholly]
    split
    · rename_i inside
      rw [List.take_append, List.take_of_length_le inside]
      rcases ih (cut - (encode item).length) with
        whole | ⟨other, member, part, nonempty, short, torn⟩
      · exact .inl (by rw [whole, List.flatMap_cons])
      · exact .inr ⟨other, by simp [member], part, nonempty, short, by
          rw [torn, List.flatMap_cons, List.append_assoc]⟩
    · rename_i outside
      rw [List.take_append_of_le_length (by omega)]
      rcases Nat.eq_zero_or_pos cut with rfl | positive
      · exact .inl (by simp)
      · exact .inr ⟨item, by simp, cut, positive, by omega, by simp⟩

section Reading

variable {read : Reader β α ε} {encode : α → List β}

theorem readAll_nil (fuel : Nat) : readAll read fuel [] = .ok [] := by
  cases fuel <;> rfl

/-- One whole item at the front is read and taken off. -/
theorem readAll_whole {item : α} (delimits : Delimits read encode item)
    (fuel : Nat) (rest : List β) :
    readAll read (fuel + 1) (encode item ++ rest) =
      (readAll read fuel rest).map (item :: ·) := by
  have found := delimits.whole rest
  cases spelled : encode item with
  | nil => exact absurd spelled delimits.nonempty
  | cons head tail =>
    rw [spelled] at found
    simp only [List.cons_append] at found ⊢
    simp only [readAll, found]

/-- Part of an item is left unread. -/
theorem readAll_part {item : α} (delimits : Delimits read encode item)
    (fuel cut : Nat) (short : cut < (encode item).length) :
    readAll read fuel ((encode item).take cut) = .ok [] := by
  have asked := delimits.part cut short
  cases fuel with
  | zero => rfl
  | succ fuel =>
    cases taken : (encode item).take cut with
    | nil => rfl
    | cons head tail =>
      rw [taken] at asked
      simp only [readAll, asked]

/-- Reading whole items and then whatever follows them. -/
theorem readAll_append {items : List α}
    (delimits : ∀ item ∈ items, Delimits read encode item)
    (fuel : Nat) (rest : List β) :
    readAll read (items.length + fuel) (items.flatMap encode ++ rest) =
      (readAll read fuel rest).map (items ++ ·) := by
  induction items with
  | nil =>
    simp only [List.length_nil, List.flatMap_nil, List.nil_append]
    rw [Nat.zero_add]
    cases readAll read fuel rest <;> rfl
  | cons item items ih =>
    have tail := ih fun other member => delimits other (by simp [member])
    have fuelEq : (item :: items).length + fuel = (items.length + fuel) + 1 := by
      simp only [List.length_cons]
      omega
    rw [fuelEq, List.flatMap_cons, List.append_assoc,
      readAll_whole (delimits item (by simp)), tail]
    cases readAll read fuel rest <;> rfl

/-- Reading a stream cut off anywhere gives the items wholly inside it. -/
theorem readAll_take {items : List α}
    (delimits : ∀ item ∈ items, Delimits read encode item)
    (fuel cut : Nat) (ample : cut ≤ fuel) :
    readAll read fuel ((items.flatMap encode).take cut) =
      .ok (wholly encode items cut) := by
  induction items generalizing fuel cut with
  | nil =>
    simp only [List.flatMap_nil, List.take_nil, wholly]
    exact readAll_nil fuel
  | cons item items ih =>
    have here := delimits item (by simp)
    have positive : 0 < (encode item).length :=
      List.length_pos_iff.mpr here.nonempty
    simp only [List.flatMap_cons, wholly]
    split
    · rename_i inside
      obtain ⟨fuel, rfl⟩ : ∃ less, fuel = less + 1 := ⟨fuel - 1, by omega⟩
      rw [List.take_append, List.take_of_length_le inside, readAll_whole here,
        ih (fun other member => delimits other (by simp [member])) _ _ (by omega)]
      rfl
    · rename_i outside
      rw [List.take_append_of_le_length (by omega)]
      exact readAll_part here fuel cut (by omega)

/-- Whatever follows whole items, their number is no more than the length. -/
theorem length_le_append {items : List α}
    (delimits : ∀ item ∈ items, Delimits read encode item) (rest : List β) :
    items.length ≤ (items.flatMap encode ++ rest).length := by
  induction items with
  | nil => simp
  | cons item items ih =>
    have positive := List.length_pos_iff.mpr (delimits item (by simp)).nonempty
    have shorter := ih fun other member => delimits other (by simp [member])
    simp only [List.flatMap_cons, List.length_append, List.length_cons] at shorter ⊢
    omega

/-- What is read once is read first. -/
theorem eq_of_readAll_singleton {fuel : Nat} {input : List β} {item : α}
    (single : readAll read fuel input = .ok [item]) :
    ∃ rest, read input = .ok (some (item, rest)) := by
  cases fuel with
  | zero => cases single
  | succ fuel =>
    cases input with
    | nil => cases single
    | cons head tail =>
      simp only [readAll] at single
      split at single
      · cases single
      · cases single
      · rename_i found rest isFound
        cases later : readAll read fuel rest with
        | error error => simp [later, Except.map] at single
        | ok items =>
          simp only [later, Except.map, Except.ok.injEq, List.cons.injEq] at single
          exact ⟨rest, by rw [isFound, single.1]⟩

/-- The length of a stream is fuel enough to read it. -/
theorem readAll_length_take {items : List α}
    (delimits : ∀ item ∈ items, Delimits read encode item) (cut : Nat) :
    readAll read ((items.flatMap encode).take cut).length
      ((items.flatMap encode).take cut) = .ok (wholly encode items cut) := by
  rcases le_total cut (items.flatMap encode).length with inside | beyond
  · rw [List.length_take_of_le inside]
    exact readAll_take delimits cut cut le_rfl
  · rw [List.take_of_length_le beyond, wholly_eq_self beyond]
    have whole := readAll_take delimits _ (items.flatMap encode).length le_rfl
    rwa [List.take_length, wholly_eq_self le_rfl] at whole

end Reading

end Framing
