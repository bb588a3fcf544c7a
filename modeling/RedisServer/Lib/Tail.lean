import Mathlib

/-!
# Reading a log past a mark

The entries of a log carry marks that grow.  Whoever reads a log from a mark on, and goes
on from the mark of the last entry they were given, has been given at every point just what
they would have been given by one read from the first mark.
-/

namespace Tail

variable {ε ι : Type} [LinearOrder ι] (mark : ε → ι)

/-- The marks of a log grow. -/
abbrev Ordered (log : List ε) : Prop := log.Pairwise fun earlier later => mark earlier < mark later

/-- What a log holds past a mark. -/
def past (after : ι) (log : List ε) : List ε := log.filter fun entry => after < mark entry

variable {mark}

@[simp] theorem mem_past {after : ι} {log : List ε} {entry : ε} :
    entry ∈ past mark after log ↔ entry ∈ log ∧ after < mark entry := by
  simp [past]

theorem past_append (after : ι) (log more : List ε) :
    past mark after (log ++ more) = past mark after log ++ past mark after more :=
  List.filter_append ..

theorem past_eq_self {after : ι} {log : List ε} (above : ∀ entry ∈ log, after < mark entry) :
    past mark after log = log := List.filter_eq_self.mpr (by simpa using above)

theorem past_eq_nil {after : ι} {log : List ε} (upTo : ∀ entry ∈ log, mark entry ≤ after) :
    past mark after log = [] := List.filter_eq_nil_iff.mpr (by simpa using upTo)

/-- The entry with the greatest mark comes last. -/
theorem Ordered.le_getLast {log : List ε} (ordered : Ordered mark log) {last : ε}
    (isLast : log.getLast? = some last) {entry : ε} (member : entry ∈ log) :
    mark entry ≤ mark last := by
  obtain ⟨front, rfl⟩ := List.getLast?_eq_some_iff.mp isLast
  rcases List.mem_append.mp member with before | same
  · exact ((List.pairwise_append.mp ordered).2.2 entry before last (List.mem_singleton_self _)).le
  · rw [List.mem_singleton.mp same]

/-- Going on from the last entry read. -/
theorem past_resume {start : ι} {seen log : List ε} (ordered : Ordered mark log)
    (grew : seen <+: log) {last : ε} (isLast : (past mark start seen).getLast? = some last) :
    past mark start log = past mark start seen ++ past mark (mark last) log := by
  obtain ⟨more, rfl⟩ := grew
  obtain ⟨orderedSeen, -, later⟩ := List.pairwise_append.mp ordered
  obtain ⟨isSeen, above⟩ := mem_past.mp (List.mem_of_getLast? isLast)
  have upTo : ∀ entry ∈ seen, mark entry ≤ mark last := by
    intro entry member
    by_cases read : start < mark entry
    · have orderedPast : Ordered mark (past mark start seen) := orderedSeen.filter _
      exact orderedPast.le_getLast isLast (mem_past.mpr ⟨member, read⟩)
    · exact (not_lt.mp read).trans above.le
  have beyond : ∀ entry ∈ more, mark last < mark entry := fun entry member =>
    later last isSeen entry member
  rw [past_append, past_append, past_eq_nil upTo, List.nil_append, past_eq_self beyond,
    past_eq_self fun entry member => above.trans (beyond entry member)]

end Tail
