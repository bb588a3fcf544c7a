import Mathlib

/-!
# Items handed to those who wait for them

Items are handed out from the front, one to a client, the longest waiting first, until
there are no more of the one or of the other.  Nothing is lost on the way: the items
handed out and those left are the items there were, and so it is with the clients.
-/

/-- What is left once items have been handed out, and who was handed what. -/
structure Handover (α β : Type) where
  items : List α
  waiting : List β
  served : List (β × α)

namespace Handover

variable {α β : Type}

/-- Hands items out one by one. -/
def settle : List β → List α → Handover α β
  | client :: waiting, item :: items =>
    let rest := settle waiting items
    { rest with served := (client, item) :: rest.served }
  | waiting, items => ⟨items, waiting, []⟩

@[simp] theorem settle_nil_left (items : List α) :
    settle ([] : List β) items = ⟨items, [], []⟩ := by
  cases items <;> rfl

@[simp] theorem settle_nil_right (waiting : List β) :
    settle waiting ([] : List α) = ⟨[], waiting, []⟩ := by
  cases waiting <;> rfl

@[simp] theorem settle_cons (client : β) (waiting : List β) (item : α) (items : List α) :
    settle (client :: waiting) (item :: items) =
      { settle waiting items with
        served := (client, item) :: (settle waiting items).served } := rfl

/-- Nobody is left waiting while there is an item left. -/
theorem settle_idle (waiting : List β) (items : List α)
    (left : (settle waiting items).items ≠ []) : (settle waiting items).waiting = [] := by
  induction waiting generalizing items with
  | nil => simp
  | cons client waiting ih =>
    cases items with
    | nil => simp at left
    | cons item items => exact ih items left

/-- No item is lost, handed out twice or out of its turn. -/
theorem settle_items (waiting : List β) (items : List α) :
    (settle waiting items).served.map Prod.snd ++ (settle waiting items).items = items := by
  induction waiting generalizing items with
  | nil => simp
  | cons client waiting ih =>
    cases items with
    | nil => simp
    | cons item items => simpa using ih items

/-- No client is passed over or served twice. -/
theorem settle_waiting (waiting : List β) (items : List α) :
    (settle waiting items).served.map Prod.fst ++ (settle waiting items).waiting =
      waiting := by
  induction waiting generalizing items with
  | nil => simp
  | cons client waiting ih =>
    cases items with
    | nil => simp
    | cons item items => simpa using ih items

/-- Those who have waited longest are served, as many as there are items. -/
theorem settle_served (waiting : List β) (items : List α) :
    (settle waiting items).served.map Prod.fst = waiting.take items.length := by
  induction waiting generalizing items with
  | nil => simp
  | cons client waiting ih =>
    cases items with
    | nil => simp
    | cons item items => simpa using ih items

/-- Nobody who does not wait is served. -/
theorem lookup_served_eq_none [BEq β] [LawfulBEq β] {client : β} {waiting : List β}
    (absent : client ∉ waiting) (items : List α) :
    (settle waiting items).served.lookup client = none := by
  rw [List.lookup_eq_none_iff]
  intro served member
  rw [bne_iff_ne]
  rintro rfl
  apply absent
  rw [← settle_waiting waiting items]
  exact List.mem_append_left _ (List.mem_map_of_mem member)

/-- Those left waiting are those who were not served. -/
theorem filter_unserved [BEq β] [LawfulBEq β] {waiting : List β} (nodup : waiting.Nodup)
    (items : List α) :
    waiting.filter (fun client => ((settle waiting items).served.lookup client).isNone) =
      (settle waiting items).waiting := by
  induction waiting generalizing items with
  | nil => simp
  | cons client waiting ih =>
    cases items with
    | nil => simp
    | cons item items =>
      rw [List.nodup_cons] at nodup
      rw [List.filter_cons_of_neg (by simp), settle_cons, ← ih nodup.2 items]
      apply List.filter_congr
      intro other member
      have different : (other == client) = false := by
        rw [beq_eq_false_iff_ne]
        rintro rfl
        exact nodup.1 member
      rw [List.lookup_cons, different]

/-- What everyone holds once some have been served is what they held and what those were
served with. -/
theorem filterMap_lookup_perm [BEq β] [LawfulBEq β] {clients : List β} (nodup : clients.Nodup)
    {served : List (β × α)} (among : (served.map Prod.fst).Sublist clients)
    {before : β → Option α} (unserved : ∀ client ∈ served.map Prod.fst, before client = none) :
    (clients.filterMap fun client => (served.lookup client).or (before client)).Perm
      (clients.filterMap before ++ served.map Prod.snd) := by
  induction clients generalizing served with
  | nil =>
    obtain rfl : served = [] := by simpa using among
    simp
  | cons client clients ih =>
    rw [List.nodup_cons] at nodup
    by_cases first : ∃ item rest, served = (client, item) :: rest
    · obtain ⟨item, rest, rfl⟩ := first
      have others : clients.filterMap
            (fun other => (List.lookup other ((client, item) :: rest)).or (before other)) =
          clients.filterMap fun other => (rest.lookup other).or (before other) := by
        apply List.filterMap_congr
        intro other member
        have different : (other == client) = false := by
          rw [beq_eq_false_iff_ne]
          rintro rfl
          exact nodup.1 member
        rw [List.lookup_cons, different]
      have unheld : before client = none := unserved client (by simp)
      simp only [List.filterMap_cons, List.lookup_cons_self, Option.some_or, others, unheld,
        List.map_cons]
      refine (List.Perm.cons item (ih nodup.2 ?_ ?_)).trans List.perm_middle.symm
      · exact List.cons_sublist_cons.mp among
      · intro other member
        exact unserved other (List.mem_cons_of_mem _ member)
    · have amongOthers : (served.map Prod.fst).Sublist clients := by
        cases served with
        | nil => simp
        | cons pair rest =>
          refine among.of_cons_of_ne fun same => first ⟨pair.2, rest, ?_⟩
          rw [← same]
      have absent : served.lookup client = none := by
        rw [List.lookup_eq_none_iff]
        intro pair member
        rw [bne_iff_ne]
        rintro rfl
        exact nodup.1 (amongOthers.subset (List.mem_map_of_mem member))
      have rest := ih nodup.2 amongOthers unserved
      simp only [List.filterMap_cons, absent, Option.none_or]
      cases before client with
      | none => exact rest
      | some item => exact rest.cons item

end Handover
