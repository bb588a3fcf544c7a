import RedisServer.Lib.Map

/-!
# Who listens to what, kept on both sides

A registry lists the listeners of each topic, and each listener has a list of its own.
The two mirror each other: a listener stands in the list of a topic once if the topic is
one of its own, and not at all otherwise, and no topic is kept without a listener.
-/

namespace Registry

variable {κ ι : Type} [Ord κ] [Std.TransOrd κ] [Std.LawfulEqOrd κ] [DecidableEq κ] [DecidableEq ι]

/-- Those that listen to a topic. -/
def listeners (registry : Map κ (List ι)) (topic : κ) : List ι := registry[topic]?.getD []

/-- Takes a listener on. -/
def join (registry : Map κ (List ι)) (topic : κ) (listener : ι) : Map κ (List ι) :=
  registry.insert topic (listeners registry topic ++ [listener])

/-- Lets a listener go.  A topic nobody is left on is forgotten. -/
def leave (registry : Map κ (List ι)) (topic : κ) (listener : ι) : Map κ (List ι) :=
  match registry[topic]? with
  | none => registry
  | some listening =>
    let left := listening.filter fun other => other ≠ listener
    if left.isEmpty then registry.erase topic else registry.insert topic left

/-- Lets a listener go from everything. -/
def forget (registry : Map κ (List ι)) (listener : ι) : Map κ (List ι) :=
  registry.filterMap fun _ listening =>
    let left := listening.filter fun other => other ≠ listener
    if left.isEmpty then none else some left

/-- A registry says of each listener what the listener says of itself. -/
structure Mirrors (registry : Map κ (List ι)) (own : ι → List κ) : Prop where
  once : ∀ (topic : κ) (listener : ι),
    (listeners registry topic).count listener = if topic ∈ own listener then 1 else 0
  kept : ∀ topic : κ, registry[topic]? ≠ some []

/-- Those that are left when one goes, unless nobody is. -/
def without (listening : List ι) (listener : ι) : Option (List ι) :=
  if (listening.filter fun other => other ≠ listener).isEmpty then none
  else some (listening.filter fun other => other ≠ listener)

theorem without_ne (listening : List ι) (listener : ι) : without listening listener ≠ some [] := by
  unfold without
  split
  · simp
  · rename_i somebody
    simpa using somebody

theorem getD_without (listening : List ι) (listener : ι) :
    (without listening listener).getD [] = listening.filter fun other => other ≠ listener := by
  unfold without
  split
  · rename_i nobody
    rw [List.isEmpty_iff.mp nobody]
    rfl
  · rfl

omit [DecidableEq ι] in
theorem lookup_join (registry : Map κ (List ι)) (topic other : κ) (listener : ι) :
    (join registry topic listener)[other]? =
      if other = topic then some (listeners registry topic ++ [listener])
      else registry[other]? := Map.lookup_insert _ _ _ _

theorem lookup_leave (registry : Map κ (List ι)) (topic other : κ) (listener : ι) :
    (leave registry topic listener)[other]? =
      if other = topic then registry[topic]?.bind fun listening => without listening listener
      else registry[other]? := by
  unfold leave
  cases found : registry[topic]? with
  | none =>
    by_cases same : other = topic
    · simp [same, found]
    · simp [same]
  | some listening =>
    dsimp only [Option.bind_some, without]
    by_cases nobody : (listening.filter fun other => other ≠ listener).isEmpty
    · rw [if_pos nobody, if_pos nobody, Map.lookup_erase]
    · rw [if_neg nobody, if_neg nobody, Map.lookup_insert]

omit [DecidableEq κ] in
theorem lookup_forget (registry : Map κ (List ι)) (topic : κ) (listener : ι) :
    (forget registry listener)[topic]? =
      registry[topic]?.bind fun listening => without listening listener :=
  Std.ExtTreeMap.getElem?_filterMap'

omit [DecidableEq ι] in
theorem listeners_join (registry : Map κ (List ι)) (topic other : κ) (listener : ι) :
    listeners (join registry topic listener) other =
      if other = topic then listeners registry topic ++ [listener]
      else listeners registry other := by
  unfold listeners
  rw [lookup_join]
  split <;> rfl

theorem listeners_leave (registry : Map κ (List ι)) (topic other : κ) (listener : ι) :
    listeners (leave registry topic listener) other =
      if other = topic then (listeners registry topic).filter fun each => each ≠ listener
      else listeners registry other := by
  unfold listeners
  rw [lookup_leave]
  split
  · cases registry[topic]? with
    | none => rfl
    | some listening => exact getD_without listening listener
  · rfl

omit [DecidableEq κ] in
theorem listeners_forget (registry : Map κ (List ι)) (topic : κ) (listener : ι) :
    listeners (forget registry listener) topic =
      (listeners registry topic).filter fun each => each ≠ listener := by
  unfold listeners
  rw [lookup_forget]
  cases registry[topic]? with
  | none => rfl
  | some listening => exact getD_without listening listener

omit [DecidableEq κ] in
theorem count_filter_ne (listening : List ι) (listener other : ι) :
    (listening.filter fun each => each ≠ listener).count other =
      if other = listener then 0 else listening.count other := by
  split
  · rename_i same
    rw [same, List.count_eq_zero]
    simp
  · rename_i different
    exact List.count_filter (by simpa using different)

namespace Mirrors

variable {registry : Map κ (List ι)} {own after : ι → List κ}

omit [Std.LawfulEqOrd κ] in
theorem empty : Mirrors (∅ : Map κ (List ι)) fun _ => [] :=
  ⟨fun topic listener => by simp [listeners], fun topic => by simp⟩

omit [Std.LawfulEqOrd κ] in
theorem mem_iff (mirrors : Mirrors registry own) (topic : κ) (listener : ι) :
    listener ∈ listeners registry topic ↔ topic ∈ own listener := by
  rw [← List.count_pos_iff, mirrors.once]
  split <;> simp_all

omit [Std.LawfulEqOrd κ] in
theorem nodup (mirrors : Mirrors registry own) (topic : κ) : (listeners registry topic).Nodup := by
  rw [List.nodup_iff_count_le_one]
  intro listener
  rw [mirrors.once]
  split <;> omega

theorem join (mirrors : Mirrors registry own) {topic : κ} {listener : ι}
    (notOn : topic ∉ own listener)
    (isAfter : ∀ each, after each = if each = listener then own listener ++ [topic] else own each) :
    Mirrors (join registry topic listener) after := by
  constructor
  · intro other each
    have once := mirrors.once other each
    rw [listeners_join, isAfter each]
    by_cases isTopic : other = topic
    · subst isTopic
      by_cases isHere : each = listener
      · subst isHere
        simp [List.count_append, once, notOn]
      · simp [List.count_append, once, isHere, Ne.symm isHere]
    · by_cases isHere : each = listener
      · subst isHere
        simp [once, isTopic]
      · simp [once, isTopic, isHere]
  · intro other
    rw [lookup_join]
    split
    · simp
    · exact mirrors.kept other

theorem kept_leave (kept : ∀ topic : κ, registry[topic]? ≠ some []) (topic : κ) (listener : ι)
    (other : κ) : (Registry.leave registry topic listener)[other]? ≠ some [] := by
  rw [lookup_leave]
  split
  · cases registry[topic]? with
    | none => simp
    | some listening => exact without_ne listening listener
  · exact kept other

theorem leave (mirrors : Mirrors registry own) {topic : κ} {listener : ι} {left : List κ}
    (isLeft : ∀ other, other ∈ left ↔ other ≠ topic ∧ other ∈ own listener)
    (isAfter : ∀ each, after each = if each = listener then left else own each) :
    Mirrors (leave registry topic listener) after := by
  constructor
  · intro other each
    have once := mirrors.once other each
    rw [listeners_leave, isAfter each]
    by_cases isTopic : other = topic
    · subst isTopic
      rw [if_pos rfl, count_filter_ne]
      by_cases isHere : each = listener
      · simp [isHere, isLeft]
      · simp [isHere, once]
    · rw [if_neg isTopic, once]
      by_cases isHere : each = listener
      · simp [isHere, isLeft, isTopic]
      · simp [isHere]
  · exact kept_leave mirrors.kept topic listener

theorem forget (mirrors : Mirrors registry own) {listener : ι}
    (isAfter : ∀ each, after each = if each = listener then [] else own each) :
    Mirrors (forget registry listener) after := by
  constructor
  · intro topic each
    rw [listeners_forget, isAfter each, count_filter_ne]
    split
    · simp
    · exact mirrors.once topic each
  · intro topic
    rw [lookup_forget]
    cases registry[topic]? with
    | none => simp
    | some listening => exact without_ne listening listener

omit [Std.LawfulEqOrd κ] [DecidableEq κ] [DecidableEq ι] in
theorem lookup_of_kept (kept : ∀ topic : κ, registry[topic]? ≠ some []) (topic : κ) :
    registry[topic]? =
      if (listeners registry topic).isEmpty then none else some (listeners registry topic) := by
  cases found : registry[topic]? with
  | none => simp [listeners, found]
  | some listening =>
    have somebody : listening ≠ [] := fun nobody => kept topic (by rw [found, nobody])
    simp [listeners, found, somebody]

omit [DecidableEq κ] [DecidableEq ι] in
/-- Two registries that keep nothing without a listener are told apart by who listens. -/
theorem ext {other : Map κ (List ι)} (kept : ∀ topic : κ, registry[topic]? ≠ some [])
    (keptToo : ∀ topic : κ, other[topic]? ≠ some [])
    (same : ∀ topic, listeners registry topic = listeners other topic) : registry = other := by
  refine Std.ExtTreeMap.ext_getElem? fun topic => ?_
  rw [lookup_of_kept kept, lookup_of_kept keptToo, same]

/-- A listener let go from some topics, one after the other. -/
theorem listeners_foldl_leave (listener : ι) (topics : List κ) (registry : Map κ (List ι))
    (kept : ∀ topic : κ, registry[topic]? ≠ some []) :
    let left := topics.foldl (fun registry topic => Registry.leave registry topic listener) registry
    (∀ topic : κ, left[topic]? ≠ some []) ∧ ∀ topic, listeners left topic =
      if topic ∈ topics then (listeners registry topic).filter fun each => each ≠ listener
      else listeners registry topic := by
  induction topics generalizing registry with
  | nil => simpa using kept
  | cons first topics ih =>
    obtain ⟨stillKept, left⟩ := ih (Registry.leave registry first listener)
      (kept_leave kept first listener)
    refine ⟨stillKept, fun topic => ?_⟩
    rw [List.foldl_cons, left, listeners_leave]
    by_cases isFirst : topic = first <;> by_cases isLater : topic ∈ topics <;>
      simp [isFirst, isLater]

/-- Letting a listener go from everything is letting it go from each of its own topics. -/
theorem forget_eq_foldl (mirrors : Mirrors registry own) (listener : ι) :
    Registry.forget registry listener =
      (own listener).foldl (fun registry topic => Registry.leave registry topic listener)
        registry := by
  obtain ⟨kept, left⟩ := listeners_foldl_leave listener (own listener) registry mirrors.kept
  refine ext (forget mirrors fun _ => rfl).kept kept fun topic => ?_
  rw [left, listeners_forget]
  split
  · rfl
  · rename_i notOn
    refine List.filter_eq_self.mpr fun each isOn => ?_
    have isOwn := (mirrors.mem_iff topic each).mp isOn
    simpa using fun same : each = listener => notOn (same ▸ isOwn)

omit [Std.LawfulEqOrd κ] in
/-- The listeners of a topic, up to order. -/
theorem perm_filter (mirrors : Mirrors registry own) {everyone : List ι} (nodup : everyone.Nodup)
    (known : ∀ topic listener, topic ∈ own listener → listener ∈ everyone) (topic : κ) :
    (listeners registry topic).Perm (everyone.filter fun listener => topic ∈ own listener) := by
  rw [List.perm_iff_count]
  intro listener
  rw [mirrors.once]
  split
  · rename_i isOn
    rw [List.count_filter (by simpa using isOn),
      List.count_eq_one_of_mem nodup (known topic listener isOn)]
  · rename_i notOn
    rw [eq_comm, List.count_eq_zero]
    simp [notOn]

end Mirrors

end Registry
