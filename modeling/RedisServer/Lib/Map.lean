import Mathlib

/-!
# Finite maps looked up by equality

The maps of the standard library are ordered by a comparison.  Where comparing
equal is being equal, a lookup after a change is decided by equality of keys.
-/

/-- A finite map, determined by what it holds at each key. -/
abbrev Map (κ υ : Type) [Ord κ] := Std.ExtTreeMap κ υ compare

namespace Map

section Sums

variable {κ υ : Type} (weigh : υ → Nat)

theorem sum_pos_iff (pairs : List (κ × υ)) :
    0 < (pairs.map fun pair => weigh pair.2).sum ↔ ∃ pair ∈ pairs, 0 < weigh pair.2 := by
  induction pairs with
  | nil => simp
  | cons first pairs ih =>
    rw [List.map_cons, List.sum_cons, List.exists_mem_cons_iff, ← ih]
    omega

/-- Weights under different keys add up to more than one when one of them is more than
one, or two of them are something. -/
theorem one_lt_sum_pairs {pairs : List (κ × υ)}
    (distinct : pairs.Pairwise fun pair other => pair.1 ≠ other.1) :
    1 < (pairs.map fun pair => weigh pair.2).sum ↔
      (∃ pair ∈ pairs, 1 < weigh pair.2) ∨
        ∃ pair ∈ pairs, ∃ other ∈ pairs,
          pair.1 ≠ other.1 ∧ 0 < weigh pair.2 ∧ 0 < weigh other.2 := by
  induction pairs with
  | nil => simp
  | cons first pairs ih =>
    obtain ⟨apart, distinct⟩ := List.pairwise_cons.mp distinct
    have rest := sum_pos_iff weigh pairs
    have more := ih distinct
    rw [List.map_cons, List.sum_cons]
    constructor
    · intro several
      by_cases here : 1 < weigh first.2
      · exact .inl ⟨first, List.mem_cons_self, here⟩
      · by_cases there : 1 < (pairs.map fun pair => weigh pair.2).sum
        · rcases more.mp there with ⟨pair, member, heavy⟩ |
            ⟨pair, member, other, memberToo, different, some, someToo⟩
          · exact .inl ⟨pair, List.mem_cons_of_mem _ member, heavy⟩
          · exact .inr ⟨pair, List.mem_cons_of_mem _ member, other,
              List.mem_cons_of_mem _ memberToo, different, some, someToo⟩
        · obtain ⟨other, member, some⟩ := rest.mp (by omega)
          exact .inr ⟨first, List.mem_cons_self, other, List.mem_cons_of_mem _ member,
            apart other member, by omega, some⟩
    · rintro (⟨pair, member, heavy⟩ | ⟨pair, member, other, memberToo, different, some, someToo⟩)
      · rcases List.mem_cons.mp member with rfl | later
        · omega
        · have := more.mpr (.inl ⟨pair, later, heavy⟩)
          omega
      · rcases List.mem_cons.mp member with rfl | later
        · rcases List.mem_cons.mp memberToo with rfl | laterToo
          · exact absurd rfl different
          · have := rest.mpr ⟨other, laterToo, someToo⟩
            omega
        · rcases List.mem_cons.mp memberToo with rfl | laterToo
          · have := rest.mpr ⟨pair, later, some⟩
            omega
          · have := more.mpr (.inr ⟨pair, later, other, laterToo, different, some, someToo⟩)
            omega

end Sums

variable {κ υ : Type} [Ord κ] [Std.TransOrd κ] [Std.LawfulEqOrd κ] [DecidableEq κ]

theorem lookup_insert (map : Map κ υ) (key other : κ) (value : υ) :
    (map.insert key value)[other]? = if other = key then some value else map[other]? := by
  rw [Std.ExtTreeMap.getElem?_insert]
  simp [eq_comm (a := other)]

theorem lookup_erase (map : Map κ υ) (key other : κ) :
    (map.erase key)[other]? = if other = key then none else map[other]? := by
  rw [Std.ExtTreeMap.getElem?_erase]
  simp [eq_comm (a := other)]

omit [DecidableEq κ] in
/-- Weights of what a map holds add up to more than one when it holds one that is more
than one, or two that are something. -/
theorem one_lt_sum_iff (map : Map κ υ) (weigh : υ → Nat) :
    1 < (map.toList.map fun kept => weigh kept.2).sum ↔
      (∃ (key : κ) (value : υ), map[key]? = some value ∧ 1 < weigh value) ∨
        ∃ (key other : κ) (value held : υ), key ≠ other ∧ map[key]? = some value ∧
          map[other]? = some held ∧ 0 < weigh value ∧ 0 < weigh held := by
  have distinct : map.toList.Pairwise fun pair other => pair.1 ≠ other.1 :=
    map.distinct_keys_toList.imp fun different same => different (by simp [same])
  rw [one_lt_sum_pairs weigh distinct]
  have found (key : κ) (value : υ) : (key, value) ∈ map.toList ↔ map[key]? = some value :=
    Std.ExtTreeMap.mem_toList_iff_getElem?_eq_some
  constructor
  · rintro (⟨⟨key, value⟩, member, heavy⟩ |
      ⟨⟨key, value⟩, member, ⟨other, held⟩, memberToo, different, some, someToo⟩)
    · exact .inl ⟨key, value, (found key value).mp member, heavy⟩
    · exact .inr ⟨key, other, value, held, different, (found key value).mp member,
        (found other held).mp memberToo, some, someToo⟩
  · rintro (⟨key, value, isThere, heavy⟩ |
      ⟨key, other, value, held, different, isThere, isThereToo, some, someToo⟩)
    · exact .inl ⟨(key, value), (found key value).mpr isThere, heavy⟩
    · exact .inr ⟨(key, value), (found key value).mpr isThere, (other, held),
        (found other held).mpr isThereToo, different, some, someToo⟩

end Map
