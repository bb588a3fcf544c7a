import Mathlib

/-!
# Runs of a system, choice by choice

A system makes one step for each choice it is given, unless the choice is not open to
it.  What one step preserves, on a condition, a whole run preserves whose steps are
all taken on that condition.
-/

namespace Run

variable {σ κ : Type} (step : σ → κ → Option σ)

/-- The state these choices lead to, if each of them was open. -/
def after : σ → List κ → Option σ
  | state, [] => some state
  | state, choice :: choices => (step state choice).bind fun next => after next choices

/-- Every step is taken in a state where the condition allows it. -/
def Meets (condition : σ → κ → Prop) : σ → List κ → Prop
  | _, [] => True
  | state, choice :: choices =>
    condition state choice ∧ ∀ next, step state choice = some next → Meets condition next choices

/-- Every step that is taken is as it should be. -/
def Every (asItShould : σ → κ → σ → Prop) : σ → List κ → Prop
  | _, [] => True
  | state, choice :: choices =>
    ∀ next, step state choice = some next →
      asItShould state choice next ∧ Every asItShould next choices

instance decidableMeets (condition : σ → κ → Prop) [∀ state, DecidablePred (condition state)]
    (state : σ) (choices : List κ) : Decidable (Meets step condition state choices) :=
  match choices with
  | [] => isTrue True.intro
  | choice :: choices =>
    match stepped : step state choice with
    | none => decidable_of_iff (condition state choice) (by simp [Meets, stepped])
    | some next =>
      have := decidableMeets condition next choices
      decidable_of_iff (condition state choice ∧ Meets step condition next choices)
        (by simp [Meets, stepped])

/-- Whether a run comes to a state that is as it should be. -/
instance decidableExistsSome (found : Option σ) (asItShould : σ → Prop) [DecidablePred asItShould] :
    Decidable (∃ state, found = some state ∧ asItShould state) :=
  inferInstanceAs (Decidable (∃ state ∈ found, asItShould state))

variable {step}

theorem Meets.mono {condition wider : σ → κ → Prop} {state : σ} {choices : List κ}
    (meets : Meets step condition state choices)
    (included : ∀ state choice, condition state choice → wider state choice) :
    Meets step wider state choices := by
  induction choices generalizing state with
  | nil => exact True.intro
  | cons choice choices ih =>
    exact ⟨included state choice meets.1, fun next stepped => ih (meets.2 next stepped)⟩

/-- What is known of each choice is known at each step. -/
theorem Meets.and_mem {condition : σ → κ → Prop} {known : κ → Prop} {state : σ}
    {choices : List κ} (meets : Meets step condition state choices)
    (each : ∀ choice ∈ choices, known choice) :
    Meets step (fun state choice => condition state choice ∧ known choice) state choices := by
  induction choices generalizing state with
  | nil => exact True.intro
  | cons choice choices ih =>
    exact ⟨⟨meets.1, each choice (by simp)⟩, fun next stepped =>
      ih (meets.2 next stepped) fun other member => each other (by simp [member])⟩

/-- What every step preserves on a condition holds after a run taken on it. -/
theorem invariant {condition : σ → κ → Prop} (holds : σ → Prop)
    (kept : ∀ state choice next, holds state → condition state choice →
      step state choice = some next → holds next)
    {state last : σ} {choices : List κ} (start : holds state)
    (meets : Meets step condition state choices)
    (ran : after step state choices = some last) : holds last := by
  induction choices generalizing state with
  | nil =>
    cases ran
    exact start
  | cons choice choices ih =>
    obtain ⟨next, stepped, rest⟩ := Option.bind_eq_some_iff.mp ran
    exact ih (kept state choice next start meets.1 stepped) (meets.2 next stepped) rest

/-- Every run is taken on no condition at all. -/
theorem meets_true (state : σ) (choices : List κ) : Meets step (fun _ _ => True) state choices := by
  induction choices generalizing state with
  | nil => exact True.intro
  | cons choice choices ih => exact ⟨True.intro, fun next _ => ih next⟩

/-- What every step preserves holds after every run. -/
theorem invariant_always (holds : σ → Prop)
    (kept : ∀ state choice next, holds state → step state choice = some next → holds next)
    {state last : σ} {choices : List κ} (start : holds state)
    (ran : after step state choices = some last) : holds last :=
  invariant holds (fun state choice next held _ stepped => kept state choice next held stepped)
    start (meets_true state choices) ran

/-- Every step of a run is as it should be if it is so on a condition each step is taken on,
given what the steps preserve. -/
theorem every {condition : σ → κ → Prop} {asItShould : σ → κ → σ → Prop} (holds : σ → Prop)
    (kept : ∀ state choice next, holds state → step state choice = some next → holds next)
    (each : ∀ state choice next, holds state → condition state choice →
      step state choice = some next → asItShould state choice next)
    {state : σ} {choices : List κ} (start : holds state)
    (meets : Meets step condition state choices) : Every step asItShould state choices := by
  induction choices generalizing state with
  | nil => exact True.intro
  | cons choice choices ih =>
    intro next stepped
    exact ⟨each state choice next start meets.1 stepped,
      ih (kept state choice next start stepped) (meets.2 next stepped)⟩

/-- What is good after a run was good before it, if it was before every step. -/
theorem backwards {good : σ → Prop}
    (closed : ∀ state choice next, step state choice = some next → good next → good state)
    {state last : σ} {choices : List κ} (ran : after step state choices = some last)
    (isGood : good last) : good state := by
  induction choices generalizing state with
  | nil =>
    cases ran
    exact isGood
  | cons choice choices ih =>
    obtain ⟨next, stepped, rest⟩ := Option.bind_eq_some_iff.mp ran
    exact closed _ _ _ stepped (ih rest)

/-- A run beside another that leaves some of its choices out.  What is good at the end was
good all along. -/
theorem simulate {keep : κ → Bool} {good : σ → Prop} {related : σ → σ → Prop}
    (closed : ∀ state choice next, step state choice = some next → good next → good state)
    (kept : ∀ state shadow choice next, related state shadow → step state choice = some next →
      good next → keep choice = true →
      ∃ after, step shadow choice = some after ∧ related next after)
    (leftOut : ∀ state shadow choice next, related state shadow → step state choice = some next →
      good next → keep choice = false → related next shadow)
    {state shadow last : σ} {choices : List κ} (start : related state shadow)
    (ran : after step state choices = some last) (isGood : good last) :
    ∃ other, after step shadow (choices.filter keep) = some other ∧ related last other := by
  induction choices generalizing state shadow with
  | nil =>
    cases ran
    exact ⟨shadow, rfl, start⟩
  | cons choice choices ih =>
    obtain ⟨next, stepped, rest⟩ := Option.bind_eq_some_iff.mp ran
    have goodNext : good next := backwards closed rest isGood
    cases keeps : keep choice with
    | true =>
      obtain ⟨beside, steppedToo, still⟩ := kept _ _ _ _ start stepped goodNext keeps
      obtain ⟨other, ranToo, atLast⟩ := ih still rest
      exact ⟨other, by simp [keeps, after, steppedToo, ranToo], atLast⟩
    | false =>
      obtain ⟨other, ranToo, atLast⟩ := ih (leftOut _ _ _ _ start stepped goodNext keeps) rest
      exact ⟨other, by simp [keeps, ranToo], atLast⟩

end Run
