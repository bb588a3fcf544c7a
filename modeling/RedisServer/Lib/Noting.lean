import RedisServer.Lib.Program

/-!
# Programs that take notes

A program may take notes on its way, which nobody replies to and which change nothing.
Leaving them out gives a program as before, and every run of that program is a run with
notes: they tell what was about to be done at each point of it.
-/

/-- The same calls, and notes besides. -/
def Signature.noting (signature : Signature) (Note : Type) : Signature where
  Call := signature.Call ⊕ Note
  Reply := Sum.elim signature.Reply fun _ => Unit

namespace Program

variable {signature : Signature} {Note World Env α β : Type}

/-- Takes a note and goes on. -/
def noted (note : Note) (rest : Program (signature.noting Note) α) :
    Program (signature.noting Note) α :=
  .call (.inr note) fun _ => rest

/-- A program as it is, among others that take notes. -/
def noteless : Program signature α → Program (signature.noting Note) α
  | .ret value => .ret value
  | .call request resume => .call (.inl request) fun reply => (resume reply).noteless

/-- The program without its notes. -/
def unnoted : Program (signature.noting Note) α → Program signature α
  | .ret value => .ret value
  | .call (.inl request) resume => .call request fun reply => (resume reply).unnoted
  | .call (.inr _) resume => (resume ()).unnoted

@[simp] theorem unnoted_noted (note : Note) (rest : Program (signature.noting Note) α) :
    (noted note rest).unnoted = rest.unnoted := rfl

@[simp] theorem unnoted_noteless (program : Program signature α) :
    (program.noteless : Program (signature.noting Note) α).unnoted = program := by
  induction program with
  | ret value => rfl
  | call request resume ih => simp only [noteless, unnoted, ih]

@[simp] theorem unnoted_bind (program : Program (signature.noting Note) α)
    (next : α → Program (signature.noting Note) β) :
    (program >>= next).unnoted = program.unnoted >>= fun value => (next value).unnoted := by
  induction program with
  | ret value => rfl
  | call request resume ih =>
    cases request with
    | inl request => exact congrArg (call request) (funext fun reply => ih reply)
    | inr note => exact ih ()

@[simp] theorem unnoted_map (image : α → β) (program : Program (signature.noting Note) α) :
    (image <$> program).unnoted = image <$> program.unnoted := by
  simp only [map_eq_bind, unnoted_bind, unnoted]

/-- The notes of a run among others, and what the program has ended in if the run goes to
its end. -/
inductive Notes (machine : Machine signature World Env) :
    Program (signature.noting Note) α → List (Step Env World) → List Note → Option α →
      Prop where
  | stop (program : Program (signature.noting Note) α) : Notes machine program [] [] none
  | ret (value : α) : Notes machine (.ret value) [] [] (some value)
  | note {note : Note} {resume : Unit → Program (signature.noting Note) α}
      {steps : List (Step Env World)} {notes : List Note} {result : Option α}
      (rest : Notes machine (resume ()) steps notes result) :
      Notes machine (.call (.inr note) resume) steps (note :: notes) result
  | call {request : signature.Call}
      {resume : signature.Reply request → Program (signature.noting Note) α}
      {env : Env} {before after : World} {reply : signature.Reply request}
      {steps : List (Step Env World)} {notes : List Note} {result : Option α}
      (performed : machine.perform env before request = .done after reply)
      (rest : Notes machine (resume reply) steps notes result) :
      Notes machine (.call (.inl request) resume) (⟨env, before, after⟩ :: steps) notes result

variable {machine : Machine signature World Env}

/-- A run with notes is a run of the program without them. -/
theorem Notes.runs {program : Program (signature.noting Note) α}
    {steps : List (Step Env World)} {notes : List Note} {value : α}
    (taken : Notes machine program steps notes (some value)) :
    Runs machine program.unnoted steps value := by
  generalize isResult : some value = result at taken
  induction taken with
  | stop program => cases isResult
  | ret value =>
    cases isResult
    exact .ret value
  | note rest ih => exact ih isResult
  | call performed rest ih => exact .call performed (ih isResult)

/-- Every run of a program without its notes is one with notes. -/
theorem Runs.notes {program : Program (signature.noting Note) α}
    {steps : List (Step Env World)} {value : α}
    (runs : Runs machine program.unnoted steps value) :
    ∃ notes, Notes machine program steps notes (some value) := by
  induction program generalizing steps with
  | ret value =>
    cases runs
    exact ⟨[], .ret value⟩
  | call request resume ih =>
    cases request with
    | inl request =>
      cases runs with
      | call performed rest =>
        obtain ⟨notes, taken⟩ := ih _ rest
        exact ⟨notes, .call performed taken⟩
    | inr note =>
      obtain ⟨notes, taken⟩ := ih () runs
      exact ⟨note :: notes, .note taken⟩

/-- Nothing is noted before a program that takes no notes is through. -/
theorem Notes.noteless_bind {program : Program signature α}
    {next : α → Program (signature.noting Note) β} {steps : List (Step Env World)}
    {notes : List Note} {result : Option β}
    (taken : Notes machine (program.noteless >>= next) steps notes result) :
    notes = [] ∨ ∃ first rest value, Runs machine program first value ∧
      Notes machine (next value) rest notes result := by
  induction program generalizing steps with
  | ret value => exact .inr ⟨[], steps, value, .ret value, taken⟩
  | call request resume ih =>
    cases taken with
    | stop => exact .inl rfl
    | call performed rest =>
      rcases ih _ rest with silent | ⟨first, last, value, ran, later⟩
      · exact .inl silent
      · exact .inr ⟨_ :: first, last, value, .call performed ran, later⟩

theorem Notes.map_inv {image : α → β} {program : Program (signature.noting Note) α}
    {steps : List (Step Env World)} {notes : List Note} {result : Option β}
    (taken : Notes machine (image <$> program) steps notes result) :
    ∃ result, Notes machine program steps notes result := by
  induction program generalizing steps notes with
  | ret value => cases taken with
    | stop => exact ⟨none, .stop _⟩
    | ret => exact ⟨some value, .ret value⟩
  | call request resume ih =>
    cases taken with
    | stop => exact ⟨none, .stop _⟩
    | note rest => exact (ih () rest).imp fun _ later => .note later
    | call performed rest => exact (ih _ rest).imp fun _ later => .call performed later

theorem Notes.noteless {program : Program signature α} {steps : List (Step Env World)}
    {notes : List Note} {result : Option α}
    (taken : Notes machine program.noteless steps notes result) : notes = [] := by
  rw [← bind_ret (Program.noteless _)] at taken
  rcases taken.noteless_bind with silent | ⟨_, _, value, -, later⟩
  · exact silent
  · cases later <;> rfl

end Program
