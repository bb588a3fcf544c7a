import Mathlib.Logic.Function.Basic
import Mathlib.Data.List.Basic

/-!
# Operations written down after they are done

Each operation works on one cell.  It is done at one time and written down by its owner at a
later one, so that what is written lags behind what was done.  As long as the operations on
each cell are written down in the order they were done in, each of them does where it is
written what it did when it was done, and once all of them are written nothing is left
between the two.
-/

/-- Operations on one cell each: what an operation makes of its cell, and whether it would
be answered there what it was answered. -/
structure Effects (Key Content Op : Type) where
  cell : Op → Key
  act : Op → Content → Content
  fits : Op → Content → Prop

/-- An operation that is done, and whose it is to write down. -/
structure Owed (Owner Op : Type) where
  owner : Owner
  op : Op

/-! ## Who owes what -/

section

variable {Op Owner : Type} [DecidableEq Owner] {line : List (Owed Owner Op)} {owner other : Owner}

/-- What one owner has in line. -/
def owedBy (owner : Owner) (line : List (Owed Owner Op)) : List (Owed Owner Op) :=
  line.filter fun owed => owed.owner = owner

/-- The line without what one owner had in it. -/
def withoutOwner (owner : Owner) (line : List (Owed Owner Op)) : List (Owed Owner Op) :=
  line.filter fun owed => owed.owner ≠ owner

/-- Whatever the one owner owes becomes the other's to write down. -/
def Owed.handOver (owner other : Owner) (owed : Owed Owner Op) : Owed Owner Op :=
  if owed.owner = owner then { owed with owner := other } else owed

theorem Owed.handOver_op (owner other : Owner) (owed : Owed Owner Op) :
    (owed.handOver owner other).op = owed.op := by
  unfold handOver
  split <;> rfl

@[simp] theorem owedBy_nil (owner : Owner) : owedBy owner ([] : List (Owed Owner Op)) = [] := rfl

@[simp] theorem owedBy_append (owner : Owner) (line more : List (Owed Owner Op)) :
    owedBy owner (line ++ more) = owedBy owner line ++ owedBy owner more :=
  List.filter_append ..

theorem owedBy_cons (owner : Owner) (owed : Owed Owner Op) (line : List (Owed Owner Op)) :
    owedBy owner (owed :: line) =
      if owed.owner = owner then owed :: owedBy owner line else owedBy owner line := by
  simp [owedBy, List.filter_cons]

theorem owedBy_withoutOwner (owner other : Owner) (line : List (Owed Owner Op)) :
    owedBy other (withoutOwner owner line) = if other = owner then [] else owedBy other line := by
  rw [owedBy, withoutOwner, List.filter_filter]
  split
  · rename_i same
    simp [same]
  · rename_i different
    refine List.filter_congr fun owed _ => ?_
    by_cases isOther : owed.owner = other
    · simp [isOther, different]
    · simp [isOther]

/-- Those who have nothing to do with what is handed over owe what they owed. -/
theorem owedBy_handOver_of_ne {third : Owner} (notOwner : third ≠ owner)
    (notOther : third ≠ other) :
    owedBy third (line.map (Owed.handOver owner other)) = owedBy third line := by
  induction line with
  | nil => rfl
  | cons owed line ih =>
    rw [List.map_cons, owedBy_cons, owedBy_cons, ih, Owed.handOver]
    by_cases isOwner : owed.owner = owner
    · simp [isOwner, notOwner.symm, notOther.symm]
    · simp [isOwner]

theorem owedBy_handOver_left (different : owner ≠ other) :
    owedBy owner (line.map (Owed.handOver owner other)) = [] := by
  induction line with
  | nil => rfl
  | cons owed line ih =>
    rw [List.map_cons, owedBy_cons, ih, Owed.handOver]
    by_cases isOwner : owed.owner = owner
    · simp [isOwner, different.symm]
    · simp [isOwner]

theorem owedBy_handOver_right (nothing : owedBy other line = []) :
    owedBy other (line.map (Owed.handOver owner other)) =
      (owedBy owner line).map (Owed.handOver owner other) := by
  induction line with
  | nil => rfl
  | cons owed line ih =>
    rw [owedBy_cons] at nothing
    split at nothing
    · cases nothing
    · rename_i notOther
      rw [List.map_cons, owedBy_cons, owedBy_cons, ih nothing]
      by_cases isOwner : owed.owner = owner
      · simp [Owed.handOver, isOwner]
      · simp [Owed.handOver, isOwner, notOther]

theorem eq_nil_of_owedBy (nothing : ∀ owner, owedBy owner line = []) : line = [] := by
  cases line with
  | nil => rfl
  | cons owed line =>
    have here := nothing owed.owner
    rw [owedBy_cons, if_pos rfl] at here
    cases here

end

namespace Effects

variable {Key Content Op Owner : Type} [DecidableEq Key] [DecidableEq Owner]
  (effects : Effects Key Content Op)

/-- The cells once an operation has been done. -/
def apply (cells : Key → Content) (op : Op) : Key → Content :=
  Function.update cells (effects.cell op) (effects.act op (cells (effects.cell op)))

/-- Operations done one after the other, each answered what it was. -/
def Does : (Key → Content) → List Op → (Key → Content) → Prop
  | cells, [], after => after = cells
  | cells, op :: ops, after =>
    effects.fits op (cells (effects.cell op)) ∧ Does (effects.apply cells op) ops after

/-- Operations on one cell, each answered what it was where its turn comes. -/
inductive Leads : Content → List Op → Content → Prop where
  | nil (content : Content) : Leads content [] content
  | cons {content last : Content} {op : Op} {ops : List Op} (fits : effects.fits op content)
      (rest : Leads (effects.act op content) ops last) : Leads content (op :: ops) last

/-- The operations on one cell. -/
def onCell (key : Key) (line : List (Owed Owner Op)) : List Op :=
  (line.filter fun owed => effects.cell owed.op = key).map Owed.op

/-- What was done to the cells is what is written, and then what stands in line to be. -/
def Behind (written done : Key → Content) (line : List (Owed Owner Op)) : Prop :=
  ∀ key, effects.Leads (written key) (effects.onCell key line) (done key)

/-- Whether an owner's operation is the first in line of those on its cell. -/
def inTurn (owner : Owner) (line : List (Owed Owner Op)) : Bool :=
  (owedBy owner line).all fun owed =>
    (line.find? fun other => effects.cell other.op = effects.cell owed.op).any fun first =>
      first.owner = owner

variable {effects} {written done after : Key → Content} {line : List (Owed Owner Op)}

omit [DecidableEq Key] in
theorem Leads.concat {first last : Content} {ops : List Op} {op : Op}
    (leads : effects.Leads first ops last) (fits : effects.fits op last) :
    effects.Leads first (ops ++ [op]) (effects.act op last) := by
  induction leads with
  | nil content => exact .cons fits (.nil _)
  | cons first rest ih => exact .cons first (ih fits)

omit [DecidableEq Owner] in
theorem onCell_append (key : Key) (line more : List (Owed Owner Op)) :
    effects.onCell key (line ++ more) = effects.onCell key line ++ effects.onCell key more := by
  simp [onCell]

omit [DecidableEq Owner] in
theorem onCell_cons (key : Key) (owed : Owed Owner Op) (line : List (Owed Owner Op)) :
    effects.onCell key (owed :: line) =
      if effects.cell owed.op = key then owed.op :: effects.onCell key line
      else effects.onCell key line := by
  by_cases here : effects.cell owed.op = key <;> simp [onCell, here]

omit [DecidableEq Owner] in
theorem onCell_eq_nil {key : Key} (elsewhere : ∀ owed ∈ line, effects.cell owed.op ≠ key) :
    effects.onCell key line = [] := by
  simpa [onCell] using elsewhere

omit [DecidableEq Owner] in
theorem behind_nil (cells : Key → Content) :
    effects.Behind cells cells ([] : List (Owed Owner Op)) := fun _ => .nil _

omit [DecidableEq Owner] in
/-- What is done joins the line. -/
theorem Behind.join (behind : effects.Behind written done line) {more : List (Owed Owner Op)}
    (does : effects.Does done (more.map Owed.op) after) :
    effects.Behind written after (line ++ more) := by
  induction more generalizing done line with
  | nil =>
    cases does
    rwa [List.append_nil]
  | cons owed more ih =>
    obtain ⟨fits, rest⟩ := does
    have next : effects.Behind written (effects.apply done owed.op) (line ++ [owed]) := by
      intro key
      rw [onCell_append, onCell_cons]
      by_cases here : effects.cell owed.op = key
      · subst here
        rw [if_pos rfl, apply, Function.update_self]
        exact (behind _).concat fits
      · rw [if_neg here, apply, Function.update_of_ne (Ne.symm here)]
        simpa [onCell] using behind key
    simpa using ih next rest

/-- What is first in line is written down, and is answered there what it was. -/
theorem Behind.write (behind : effects.Behind written done line) {owner : Owner}
    {owed : Owed Owner Op} (only : owedBy owner line = [owed])
    (turn : effects.inTurn owner line = true) :
    effects.fits owed.op (written (effects.cell owed.op)) ∧
      effects.Behind (effects.apply written owed.op) done (withoutOwner owner line) := by
  -- whoever is first in line of those on the cell is the owner, who has nothing else there
  have isFirst : (line.find? fun other => effects.cell other.op = effects.cell owed.op) =
      some owed := by
    rw [inTurn, only, List.all_cons, Bool.and_eq_true, Option.any_eq_true] at turn
    obtain ⟨⟨first, found, isOwner⟩, -⟩ := turn
    have member : first ∈ owedBy owner line :=
      List.mem_filter.mpr ⟨List.mem_of_find?_eq_some found, isOwner⟩
    rw [only, List.mem_singleton] at member
    rwa [member] at found
  obtain ⟨-, front, back, rfl, others⟩ := List.find?_eq_some_iff_append.mp isFirst
  have elsewhere : ∀ other ∈ front, effects.cell other.op ≠ effects.cell owed.op := by
    simpa using others
  have isOwner : owed.owner = owner := by
    have member : owed ∈ [owed] := List.mem_singleton_self _
    rw [← only] at member
    simpa using (List.mem_filter.mp member).2
  have strangers : (∀ other ∈ front, other.owner ≠ owner) ∧
      ∀ other ∈ back, other.owner ≠ owner := by
    rw [owedBy_append, owedBy_cons, if_pos isOwner] at only
    have counted := congrArg List.length only
    simp only [List.length_append, List.length_cons, List.length_nil] at counted
    constructor
    · have none : owedBy owner front = [] := List.length_eq_zero_iff.mp (by omega)
      simpa [owedBy] using none
    · have none : owedBy owner back = [] := List.length_eq_zero_iff.mp (by omega)
      simpa [owedBy] using none
  have rest : withoutOwner owner (front ++ owed :: back) = front ++ back := by
    rw [withoutOwner, List.filter_append, List.filter_cons_of_neg (by simpa using isOwner),
      List.filter_eq_self.mpr (by simpa using strangers.1),
      List.filter_eq_self.mpr (by simpa using strangers.2)]
  rw [rest]
  have here := behind (effects.cell owed.op)
  rw [onCell_append, onCell_eq_nil elsewhere, onCell_cons, if_pos rfl, List.nil_append] at here
  cases here with
  | cons fits later =>
    refine ⟨fits, fun key => ?_⟩
    by_cases same : effects.cell owed.op = key
    · subst same
      rw [apply, Function.update_self, onCell_append, onCell_eq_nil elsewhere]
      exact later
    · have there := behind key
      rw [onCell_append, onCell_cons, if_neg same, ← onCell_append] at there
      rwa [apply, Function.update_of_ne (Ne.symm same)]

/-- It does not matter to the cells whose an operation is. -/
theorem Behind.handOver (behind : effects.Behind written done line)
    (owner other : Owner) :
    effects.Behind written done (line.map (Owed.handOver owner other)) := by
  intro key
  have unmoved : effects.onCell key (line.map (Owed.handOver owner other)) =
      effects.onCell key line := by
    simp [onCell, List.filter_map, Function.comp_def, Owed.handOver_op]
  rw [unmoved]
  exact behind key

omit [DecidableEq Owner] in
theorem Behind.caughtUp (behind : effects.Behind written done line) (nothing : line = []) :
    written = done := by
  subst nothing
  funext key
  have leads := behind key
  simp only [onCell, List.filter_nil, List.map_nil] at leads
  generalize written key = first at leads
  generalize done key = last at leads
  cases leads
  rfl

end Effects
