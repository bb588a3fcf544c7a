import Mathlib

/-!
# Resumable programs over atomic calls

A program of an asynchronous service is a tree: it either has its result, or it
is suspended at one atomic call on shared state and goes on with the reply.
Running the tree to its end without a pause gives the sequential meaning of the
program; stopping after each call gives its meaning among other programs.

Nothing here knows which calls there are.  A `Signature` names them together
with the type of each reply, and a `Machine` performs one call on a world.
-/

/-- The atomic calls a program may make, each with the type of its reply. -/
structure Signature where
  Call : Type
  Reply : Call → Type

/-- A program that is finished, or suspended at an atomic call. -/
inductive Program (signature : Signature) (α : Type) where
  | ret (value : α)
  | call (request : signature.Call)
      (resume : signature.Reply request → Program signature α)

namespace Program

variable {signature : Signature} {α β γ : Type}

protected def bind : Program signature α → (α → Program signature β) →
    Program signature β
  | .ret value, next => next value
  | .call request resume, next =>
    .call request fun reply => (resume reply).bind next

instance : Monad (Program signature) where
  pure := .ret
  bind := Program.bind

@[simp] theorem pure_eq_ret (value : α) :
    (pure value : Program signature α) = .ret value := rfl

theorem bind_eq (program : Program signature α) (next : α → Program signature β) :
    program.bind next = program >>= next := rfl

@[simp] theorem ret_bind (value : α) (next : α → Program signature β) :
    (Program.ret value >>= next) = next value := rfl

@[simp] theorem call_bind (request : signature.Call)
    (resume : signature.Reply request → Program signature α)
    (next : α → Program signature β) :
    (Program.call request resume >>= next) =
      .call request fun reply => resume reply >>= next := rfl

@[simp] theorem bind_ret (program : Program signature α) :
    (program >>= Program.ret) = program := by
  induction program with
  | ret value => rfl
  | call request resume ih =>
    simp only [call_bind, ih]

theorem bind_bind (program : Program signature α)
    (next : α → Program signature β) (last : β → Program signature γ) :
    (program >>= next >>= last) = program >>= fun value => next value >>= last := by
  induction program with
  | ret value => rfl
  | call request resume ih =>
    simp only [call_bind, ih]

theorem map_eq_bind (image : α → β) (program : Program signature α) :
    image <$> program = program >>= fun value => .ret (image value) := rfl

@[simp] theorem map_ret (image : α → β) (value : α) :
    (image <$> (Program.ret value : Program signature α)) =
      .ret (image value) := rfl

@[simp] theorem map_call (image : α → β) (request : signature.Call)
    (resume : signature.Reply request → Program signature α) :
    image <$> Program.call request resume =
      .call request fun reply => image <$> resume reply := rfl

/-! ## The calls a program makes -/

/-- Every call the program can make, whatever it is replied, is one of those
`allowed`. -/
def Makes (allowed : signature.Call → Prop) : Program signature α → Prop
  | .ret _ => True
  | .call request resume =>
    allowed request ∧ ∀ reply, (resume reply).Makes allowed

@[simp] theorem makes_ret (allowed : signature.Call → Prop) (value : α) :
    (Program.ret value : Program signature α).Makes allowed := True.intro

@[simp] theorem makes_call (allowed : signature.Call → Prop)
    (request : signature.Call)
    (resume : signature.Reply request → Program signature α) :
    (Program.call request resume).Makes allowed ↔
      allowed request ∧ ∀ reply, (resume reply).Makes allowed := Iff.rfl

theorem Makes.bind {allowed : signature.Call → Prop}
    {program : Program signature α} {next : α → Program signature β}
    (first : program.Makes allowed) (rest : ∀ value, (next value).Makes allowed) :
    (program >>= next).Makes allowed := by
  induction program with
  | ret value => exact rest value
  | call request resume ih =>
    exact ⟨first.1, fun reply => ih reply (first.2 reply)⟩

theorem Makes.map {allowed : signature.Call → Prop}
    {program : Program signature α} (makes : program.Makes allowed)
    (image : α → β) : (image <$> program).Makes allowed :=
  makes.bind fun _ => True.intro

theorem Makes.and {allowed other : signature.Call → Prop} {program : Program signature α}
    (makes : program.Makes allowed) (others : program.Makes other) :
    program.Makes fun request => allowed request ∧ other request := by
  induction program with
  | ret value => exact True.intro
  | call request resume ih =>
    exact ⟨⟨makes.1, others.1⟩, fun reply => ih reply (makes.2 reply) (others.2 reply)⟩

theorem Makes.mono {allowed wider : signature.Call → Prop}
    {program : Program signature α} (makes : program.Makes allowed)
    (included : ∀ request, allowed request → wider request) :
    program.Makes wider := by
  induction program with
  | ret value => exact True.intro
  | call request resume ih =>
    exact ⟨included request makes.1, fun reply => ih reply (makes.2 reply)⟩

end Program

/-- What becomes of a call, or of a whole program.  One that is stuck waits for
something that does not come; one that panics ends there, leaving the world as
it found it. -/
inductive Outcome (World α : Type) where
  | stuck
  | panicked (world : World)
  | done (world : World) (value : α)

/-- The same outcome with another value. -/
def Outcome.map {World α β : Type} (image : α → β) : Outcome World α → Outcome World β
  | .stuck => .stuck
  | .panicked world => .panicked world
  | .done world value => .done world (image value)

/-- How one call acts on the shared world.  What the environment decides (a
clock reading, a failure, a time-out) is an input. -/
structure Machine (signature : Signature) (World Env : Type) where
  perform : Env → World → (request : signature.Call) →
    Outcome World (signature.Reply request)

namespace Program

variable {signature : Signature} {World Env : Type} {α β : Type}
variable (machine : Machine signature World Env) (supply : Nat → Env)

/-- Run a program to its end with nothing happening in between.  The `n`th call
of the run is decided by `supply n`, and the count is carried along. -/
def exec : Program signature α → Nat → World → Outcome (Nat × World) α
  | .ret value, count, world => .done (count, world) value
  | .call request resume, count, world =>
    match machine.perform (supply count) world request with
    | .stuck => .stuck
    | .panicked world => .panicked (count + 1, world)
    | .done world reply => (resume reply).exec (count + 1) world

@[simp] theorem exec_ret (value : α) (count : Nat) (world : World) :
    (Program.ret value : Program signature α).exec machine supply count world =
      .done (count, world) value := rfl

theorem exec_call (request : signature.Call)
    (resume : signature.Reply request → Program signature α)
    (count : Nat) (world : World) :
    (Program.call request resume).exec machine supply count world =
      match machine.perform (supply count) world request with
      | .stuck => .stuck
      | .panicked world => .panicked (count + 1, world)
      | .done world reply =>
        (resume reply).exec machine supply (count + 1) world := by
  rw [exec]

variable {machine supply}

theorem exec_call_done {request : signature.Call}
    {resume : signature.Reply request → Program signature α}
    {count : Nat} {world next : World} {reply : signature.Reply request}
    (performed : machine.perform (supply count) world request =
      .done next reply) :
    (Program.call request resume).exec machine supply count world =
      (resume reply).exec machine supply (count + 1) next := by
  simp only [exec_call, performed]

theorem exec_bind (program : Program signature α)
    (next : α → Program signature β) (count : Nat) (world : World) :
    (program >>= next).exec machine supply count world =
      match program.exec machine supply count world with
      | .stuck => .stuck
      | .panicked world => .panicked world
      | .done world value => (next value).exec machine supply world.1 world.2 := by
  induction program generalizing count world with
  | ret value => rfl
  | call request resume ih =>
    simp only [call_bind, exec_call]
    cases machine.perform (supply count) world request with
    | stuck => rfl
    | panicked world => rfl
    | done world reply => exact ih reply (count + 1) world

theorem exec_map (image : α → β) (program : Program signature α) (count : Nat)
    (world : World) : (image <$> program).exec machine supply count world =
      (program.exec machine supply count world).map image := by
  rw [map_eq_bind, exec_bind]
  cases program.exec machine supply count world <;> rfl

/-! ## What a program ends in -/

/-- Every value the program can end in, whatever it is replied, is one described. -/
def Returns (post : α → Prop) : Program signature α → Prop
  | .ret value => post value
  | .call _ resume => ∀ reply, (resume reply).Returns post

@[simp] theorem returns_ret (post : α → Prop) (value : α) :
    (Program.ret value : Program signature α).Returns post ↔ post value := Iff.rfl

@[simp] theorem returns_call (post : α → Prop) (request : signature.Call)
    (resume : signature.Reply request → Program signature α) :
    (Program.call request resume).Returns post ↔ ∀ reply, (resume reply).Returns post :=
  Iff.rfl

theorem Returns.of_forall {post : α → Prop} (every : ∀ value, post value)
    (program : Program signature α) : program.Returns post := by
  induction program with
  | ret value => exact every value
  | call request resume ih => exact fun reply => ih reply

theorem Returns.bind {post : α → Prop} {last : β → Prop} {program : Program signature α}
    {next : α → Program signature β} (first : program.Returns post)
    (rest : ∀ value, post value → (next value).Returns last) :
    (program >>= next).Returns last := by
  induction program with
  | ret value => exact rest value first
  | call request resume ih => exact fun reply => ih reply (first reply)

theorem Returns.mono {post wider : α → Prop} {program : Program signature α}
    (returns : program.Returns post) (included : ∀ value, post value → wider value) :
    program.Returns wider := by
  induction program with
  | ret value => exact included value returns
  | call request resume ih => exact fun reply => ih reply (returns reply)

theorem Returns.and {post other : α → Prop} {program : Program signature α}
    (returns : program.Returns post) (returnsToo : program.Returns other) :
    program.Returns fun value => post value ∧ other value := by
  induction program with
  | ret value => exact ⟨returns, returnsToo⟩
  | call request resume ih => exact fun reply => ih reply (returns reply) (returnsToo reply)

theorem Returns.map {post : β → Prop} {image : α → β} {program : Program signature α}
    (returns : program.Returns fun value => post (image value)) :
    (image <$> program).Returns post :=
  returns.bind fun _ holds => holds

/-- What comes after a program need make its calls only for what the program can end in. -/
theorem Returns.bind_makes {allowed : signature.Call → Prop} {post : α → Prop}
    {program : Program signature α} {next : α → Program signature β}
    (returns : program.Returns post) (makes : program.Makes allowed)
    (rest : ∀ value, post value → (next value).Makes allowed) :
    (program >>= next).Makes allowed := by
  induction program with
  | ret value => exact rest value returns
  | call request resume ih =>
    exact ⟨makes.1, fun reply => ih reply (returns reply) (makes.2 reply)⟩

/-- What comes after a program matters only for what the program can end in. -/
theorem Returns.bind_congr {post : α → Prop} {program : Program signature α}
    {next other : α → Program signature β} (returns : program.Returns post)
    (same : ∀ value, post value → next value = other value) :
    (program >>= next) = program >>= other := by
  induction program with
  | ret value => exact same value returns
  | call request resume ih => simp only [call_bind, fun reply => ih reply (returns reply)]

end Program

/-! ## Runs among others -/

/-- One call of a program, and the worlds before it and after it. -/
structure Step (Env World : Type) where
  env : Env
  before : World
  after : World

namespace Program

variable {signature : Signature} {World Env α β : Type} {machine : Machine signature World Env}

/-- A run of a program among others: its calls are carried out one at a time, each on
the world as others have left it by then. -/
inductive Runs (machine : Machine signature World Env) :
    Program signature α → List (Step Env World) → α → Prop where
  | ret (value : α) : Runs machine (.ret value) [] value
  | call {request : signature.Call} {resume : signature.Reply request → Program signature α}
      {env : Env} {before after : World} {reply : signature.Reply request}
      {steps : List (Step Env World)} {value : α}
      (performed : machine.perform env before request = .done after reply)
      (rest : Runs machine (resume reply) steps value) :
      Runs machine (.call request resume) (⟨env, before, after⟩ :: steps) value

namespace Runs

theorem bind_inv {program : Program signature α} {next : α → Program signature β}
    {steps : List (Step Env World)} {value : β}
    (runs : Runs machine (program >>= next) steps value) :
    ∃ first rest middle, steps = first ++ rest ∧ Runs machine program first middle ∧
      Runs machine (next middle) rest value := by
  induction program generalizing steps with
  | ret middle => exact ⟨[], steps, middle, rfl, .ret middle, runs⟩
  | call request resume ih =>
    cases runs with
    | call performed runs =>
      obtain ⟨first, rest, middle, rfl, ran, runs⟩ := ih _ runs
      exact ⟨_ :: first, rest, middle, rfl, .call performed ran, runs⟩

theorem map_inv {program : Program signature α} {image : α → β}
    {steps : List (Step Env World)} {value : β}
    (runs : Runs machine (image <$> program) steps value) :
    ∃ middle, value = image middle ∧ Runs machine program steps middle := by
  obtain ⟨first, rest, middle, rfl, ran, last⟩ := runs.bind_inv
  cases last
  exact ⟨middle, rfl, by simpa using ran⟩

theorem returns {post : α → Prop} {program : Program signature α}
    {steps : List (Step Env World)} {value : α} (runs : Runs machine program steps value)
    (returns : program.Returns post) : post value := by
  induction runs with
  | ret value => exact returns
  | call performed rest ih => exact ih (returns _)

/-- Each step of a run was a call the program may make. -/
theorem makes {allowed : signature.Call → Prop} {program : Program signature α}
    {steps : List (Step Env World)} {value : α} (runs : Runs machine program steps value)
    (makes : program.Makes allowed) : ∀ step ∈ steps, ∃ request reply, allowed request ∧
      machine.perform step.env step.before request = .done step.after reply := by
  induction runs with
  | ret value => simp
  | call performed rest ih =>
    intro step member
    rcases List.mem_cons.mp member with rfl | later
    · exact ⟨_, _, makes.1, performed⟩
    · exact ih (makes.2 _) step later

end Runs

end Program

/-! ## What every run of a program ensures -/

/-- The terms a program is run on: what the environment may decide, and what is to
hold if the program gets stuck or panics. -/
structure Terms (Env World : Type) where
  permitted : Env → Prop
  stuck : Prop
  panicked : World → Prop

/-- The terms on which a program always ends, whatever the environment decides. -/
def Terms.total {Env World : Type} : Terms Env World := ⟨fun _ => True, False, fun _ => False⟩

/-- What holds of an outcome, on these terms. -/
def Outcome.Meets {World Env α : Type} (terms : Terms Env World)
    (post : World → α → Prop) : Outcome World α → Prop
  | .stuck => terms.stuck
  | .panicked world => terms.panicked world
  | .done world value => post world value

theorem Outcome.Meets.mono {World Env α : Type} {terms : Terms Env World}
    {post wider : World → α → Prop} {outcome : Outcome World α}
    (meets : outcome.Meets terms post)
    (included : ∀ world value, post world value → wider world value) :
    outcome.Meets terms wider := by
  cases outcome with
  | stuck => exact meets
  | panicked world => exact meets
  | done world value => exact included world value meets

/-- An outcome is as it should be if each way it may come about is. -/
theorem Outcome.Meets.of_forall {World Env α : Type} {terms : Terms Env World}
    {post : World → α → Prop} {outcome : Outcome World α} (stuck : terms.stuck)
    (panicked : ∀ world, outcome = .panicked world → terms.panicked world)
    (done : ∀ world value, outcome = .done world value → post world value) :
    outcome.Meets terms post := by
  cases outcome with
  | stuck => exact stuck
  | panicked world => exact panicked world rfl
  | done world value => exact done world value rfl

namespace Program

variable {signature : Signature} {World Env : Type} {α β : Type}
variable (machine : Machine signature World Env) (terms : Terms Env World)

/-- Started in this world, with only permitted decisions of the environment, every
run of the program ends as the terms say or leaves a world and a value as
described. -/
def Ensures (post : World → α → Prop) : Program signature α → World → Prop
  | .ret value, world => post world value
  | .call request resume, world =>
    ∀ env, terms.permitted env →
      (machine.perform env world request).Meets terms fun world reply =>
        (resume reply).Ensures post world

variable {machine terms}

theorem Ensures.mono {post wider : World → α → Prop} {program : Program signature α}
    {world : World} (ensures : program.Ensures machine terms post world)
    (included : ∀ world value, post world value → wider world value) :
    program.Ensures machine terms wider world := by
  induction program generalizing world with
  | ret value => exact included world value ensures
  | call request resume ih =>
    exact fun env permitted => (ensures env permitted).mono fun _ reply rest => ih reply rest

/-- A program is run, and then what comes of it. -/
theorem Ensures.bind {post : World → α → Prop} {last : World → β → Prop}
    {program : Program signature α} {next : α → Program signature β} {world : World}
    (first : program.Ensures machine terms post world)
    (rest : ∀ world value, post world value →
      (next value).Ensures machine terms last world) :
    (program >>= next).Ensures machine terms last world := by
  induction program generalizing world with
  | ret value => exact rest world value first
  | call request resume ih =>
    exact fun env permitted => (first env permitted).mono fun _ reply later => ih reply later

theorem Ensures.map {post : World → β → Prop} {image : α → β}
    {program : Program signature α} {world : World}
    (ensures : program.Ensures machine terms
      (fun world value => post world (image value)) world) :
    (image <$> program).Ensures machine terms post world :=
  ensures.bind fun _ _ holds => holds

/-- A program whose calls each keep an invariant keeps it. -/
theorem Ensures.of_makes {allowed : signature.Call → Prop} {invariant : World → Prop}
    (kept : ∀ env, terms.permitted env → ∀ world request, allowed request →
      invariant world → (machine.perform env world request).Meets terms
        fun world _ => invariant world)
    {program : Program signature α} (makes : program.Makes allowed)
    {post : α → Prop} (returns : program.Returns post) {world : World}
    (holds : invariant world) :
    program.Ensures machine terms (fun world value => invariant world ∧ post value)
      world := by
  induction program generalizing world with
  | ret value => exact ⟨holds, returns⟩
  | call request resume ih =>
    exact fun env permitted => (kept env permitted world request makes.1 holds).mono
      fun _ reply still => ih reply (makes.2 reply) (returns reply) still

/-- What a program ensures holds of its runs. -/
theorem Ensures.exec {post : World → α → Prop} {program : Program signature α}
    {world : World} (ensures : program.Ensures machine terms post world)
    {supply : Nat → Env} (permitted : ∀ n, terms.permitted (supply n)) (count : Nat) :
    match program.exec machine supply count world with
    | .stuck => terms.stuck
    | .panicked (_, world) => terms.panicked world
    | .done (_, world) value => post world value := by
  induction program generalizing world count with
  | ret value => exact ensures
  | call request resume ih =>
    have here := ensures (supply count) (permitted count)
    simp only [exec_call]
    cases performed : machine.perform (supply count) world request with
    | stuck =>
      rw [performed] at here
      exact here
    | panicked world =>
      rw [performed] at here
      exact here
    | done world reply =>
      rw [performed] at here
      exact ih reply here (count + 1)

/-- A program that always ends does end. -/
theorem Ensures.exec_total {post : World → α → Prop} {program : Program signature α}
    {world : World} (ensures : program.Ensures machine Terms.total post world)
    (supply : Nat → Env) (count : Nat) :
    ∃ last after value,
      program.exec machine supply count world = .done (last, after) value ∧
        post after value := by
  have ends := @Ensures.exec _ _ _ _ _ _ _ _ _ ensures supply (fun _ => True.intro) count
  cases ran : program.exec machine supply count world with
  | stuck =>
    rw [ran] at ends
    exact ends.elim
  | panicked world =>
    rw [ran] at ends
    exact ends.elim
  | done world value =>
    rw [ran] at ends
    exact ⟨world.1, world.2, value, rfl, ends⟩

end Program
