import RedisServer.Lib.Program

/-!
# Programs that keep to a protocol

Which calls a program may make can depend on those it has made and on what it was
replied.  A protocol says so in phases: what a phase allows, and which phase a call
and its reply lead to.  A program keeps to it whatever it is replied, and so does
what is left of the program after each call.
-/

/-- What may be called in which phase, and the phase that follows. -/
structure Protocol (signature : Signature) (Phase : Type) where
  allows : Phase → signature.Call → Prop
  next : Phase → (request : signature.Call) → signature.Reply request → Phase

/-- Whether a call may be made in a phase at rest and leaves the phase at rest. -/
def Protocol.Rests {signature : Signature} {Phase : Type}
    (protocol : Protocol signature Phase) (rest : Phase → Prop) (request : signature.Call) :
    Prop :=
  ∀ phase, rest phase → protocol.allows phase request ∧
    ∀ reply, rest (protocol.next phase request reply)

namespace Program

variable {signature : Signature} {Phase α β : Type} (protocol : Protocol signature Phase)

/-- From this phase on the program makes only calls its phases allow, and what it ends
with fits the phase it ends in. -/
def Keeps (ends : Phase → α → Prop) : Program signature α → Phase → Prop
  | .ret value, phase => ends phase value
  | .call request resume, phase =>
    protocol.allows phase request ∧
      ∀ reply, (resume reply).Keeps ends (protocol.next phase request reply)

variable {protocol} {ends : Phase → α → Prop}

@[simp] theorem keeps_ret (value : α) (phase : Phase) :
    (Program.ret value : Program signature α).Keeps protocol ends phase ↔ ends phase value :=
  Iff.rfl

@[simp] theorem keeps_call (request : signature.Call)
    (resume : signature.Reply request → Program signature α) (phase : Phase) :
    (Program.call request resume).Keeps protocol ends phase ↔
      protocol.allows phase request ∧
        ∀ reply, (resume reply).Keeps protocol ends (protocol.next phase request reply) :=
  Iff.rfl

theorem Keeps.mono {wider : Phase → α → Prop} {program : Program signature α} {phase : Phase}
    (keeps : program.Keeps protocol ends phase)
    (included : ∀ phase value, ends phase value → wider phase value) :
    program.Keeps protocol wider phase := by
  induction program generalizing phase with
  | ret value => exact included phase value keeps
  | call request resume ih => exact ⟨keeps.1, fun reply => ih reply (keeps.2 reply)⟩

theorem Keeps.bind {last : Phase → β → Prop} {program : Program signature α}
    {next : α → Program signature β} {phase : Phase}
    (first : program.Keeps protocol ends phase)
    (rest : ∀ phase value, ends phase value → (next value).Keeps protocol last phase) :
    (program >>= next).Keeps protocol last phase := by
  induction program generalizing phase with
  | ret value => exact rest phase value first
  | call request resume ih => exact ⟨first.1, fun reply => ih reply (first.2 reply)⟩

theorem Keeps.map {last : Phase → β → Prop} {program : Program signature α} {image : α → β}
    {phase : Phase}
    (keeps : program.Keeps protocol (fun phase value => last phase (image value)) phase) :
    (image <$> program).Keeps protocol last phase :=
  keeps.bind fun _ _ holds => holds

/-- What every phase allows at most is all the program makes. -/
theorem Keeps.makes {allowed : signature.Call → Prop} {program : Program signature α}
    {phase : Phase} (keeps : program.Keeps protocol ends phase)
    (included : ∀ phase request, protocol.allows phase request → allowed request) :
    program.Makes allowed := by
  induction program generalizing phase with
  | ret value => exact True.intro
  | call request resume ih =>
    exact ⟨included phase request keeps.1, fun reply => ih reply (keeps.2 reply)⟩

theorem Keeps.returns {post : α → Prop} {program : Program signature α} {phase : Phase}
    (keeps : program.Keeps protocol ends phase) (returns : program.Returns post) :
    program.Keeps protocol (fun phase value => ends phase value ∧ post value) phase := by
  induction program generalizing phase with
  | ret value => exact ⟨keeps, returns⟩
  | call request resume ih =>
    exact ⟨keeps.1, fun reply => ih reply (keeps.2 reply) (returns reply)⟩

/-- A program all of whose calls leave the phase at rest. -/
theorem Keeps.of_makes {allowed : signature.Call → Prop} {rest : Phase → Prop}
    (rests : ∀ request, allowed request → protocol.Rests rest request)
    {program : Program signature α} (makes : program.Makes allowed) {phase : Phase}
    (resting : rest phase) : program.Keeps protocol (fun phase _ => rest phase) phase := by
  induction program generalizing phase with
  | ret value => exact resting
  | call request resume ih =>
    obtain ⟨allows, next⟩ := rests request makes.1 phase resting
    exact ⟨allows, fun reply => ih reply (makes.2 reply) (next reply)⟩

end Program
