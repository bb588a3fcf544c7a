import RedisServer.Commands.Strings

/-!
# Commands that panic

A command panics when an addition it makes does not fit.  `SET` adds the time a key may
live to the time of day, and nothing bounds the one before it is added to the other.
-/

namespace RedisServer

/-- Whether a command, run to its end with nothing in between, panics. -/
def Panics {α : Type} (program : Prog α) (supply : Nat → Env) (count : Nat) (world : World) :
    Prop :=
  ∃ after, program.exec machine supply count world = .panicked after

section Panicking

variable {α : Type} {supply : Nat → Env} {count : Nat} {world : World}

theorem not_panics_ret (value : α) : ¬ Panics (.ret value) supply count world := by
  rintro ⟨after, panicked⟩
  cases panicked

theorem panics_overflow (next : Empty → Prog α) :
    Panics (.call .overflow next) supply count world :=
  ⟨(count + 1, world), rfl⟩

theorem panics_call {call : Call} {next : call.Reply → Prog α} {after : World}
    {reply : call.Reply} (performed : world.perform (supply count) call = .done after reply) :
    Panics (.call call next) supply count world ↔
      Panics (next reply) supply (count + 1) after := by
  rw [Panics, Panics, Program.exec_call_done performed]

theorem panics_of_panicked {call : Call} (next : call.Reply → Prog α) {after : World}
    (performed : world.perform (supply count) call = .panicked after) :
    Panics (.call call next) supply count world := by
  refine ⟨(count + 1, after), ?_⟩
  rw [Program.exec_call]
  simp only [machine, performed]

end Panicking

namespace Strings

variable {supply : Nat → Env} {count : Nat} {world : World}

/-- Storing a value panics just when the clock cannot stand for its deadline. -/
theorem panics_ask_set (key value : Bytes) (span : Duration) :
    Panics (ask (.on key (.set value (some span))) fun _ => ok) supply count world ↔
      ¬ (supply count).clock.now + span < 2 ^ 63 * 1000000000 := by
  by_cases fits : (supply count).clock.now + span < 2 ^ 63 * 1000000000
  · have added : instantAdd (supply count).clock.now span =
        some ((supply count).clock.now + span) := if_pos fits
    obtain ⟨after, performed⟩ : ∃ after,
        world.perform (supply count) (.store (.on key (.set value (some span)))) =
          .done after () := by
      simp [World.perform, State.perform, State.performOn, State.set, added]
    rw [ask, panics_call performed]
    simp only [fits, not_true_eq_false, iff_false]
    exact not_panics_ret ok
  · have added : instantAdd (supply count).clock.now span = none := if_neg fits
    have performed : world.perform (supply count) (.store (.on key (.set value (some span)))) =
        .panicked world := by
      simp [World.perform, State.perform, State.performOn, State.set, added]
    simp only [fits, not_false_eq_true, iff_true]
    exact panics_of_panicked _ performed

/-- `SET` with an expiry, of whatever unit and amount it accepts, leaves the server
standing just when the clock can stand for the deadline. -/
theorem set_expiring_fits_iff [Platform] (key value unit amount : Bytes) (number : Nat)
    (supply : Nat → Env) (count : Nat) (world : World)
    (read : (text amount).bind parseU64 = some number) :
    ((text unit).map Platform.toUppercase = some "EX" →
      (¬ Panics (set key value [unit, amount]) supply count world ↔
        (supply count).clock.now + number * 1000000000 < 2 ^ 63 * 1000000000)) ∧
    ((text unit).map Platform.toUppercase = some "PX" →
      (¬ Panics (set key value [unit, amount]) supply count world ↔
        (supply count).clock.now + number * 1000000 < 2 ^ 63 * 1000000000)) := by
  constructor
  · intro seconds
    have accepted : parseExpiry [unit, amount] = .ok (some (Duration.ofSeconds number)) := by
      simp [parseExpiry, read, seconds]
    rw [set, accepted]
    exact (not_congr (panics_ask_set key value _)).trans not_not
  · intro milliseconds
    have accepted : parseExpiry [unit, amount] = .ok (some (Duration.ofMillis number)) := by
      simp [parseExpiry, read, milliseconds]
    rw [set, accepted]
    exact (not_congr (panics_ask_set key value _)).trans not_not

/-- An hour, at a moment the clock can stand for. -/
theorem set_expiring_hour : let _ := Platform.ascii
    ¬ Panics (set (utf8 "key") (utf8 "value") [utf8 "EX", utf8 "3600"])
      (fun _ => { clock := ⟨1000, 0⟩ }) 0 {} := by
  let _ := Platform.ascii
  exact ((set_expiring_fits_iff (utf8 "key") (utf8 "value") (utf8 "EX") (utf8 "3600") 3600
    (fun _ => { clock := ⟨1000, 0⟩ }) 0 {} (by decide +kernel)).1 (by decide +kernel)).mpr
    (by decide)

/-- The greatest number of seconds `SET` accepts panics from the first moment on. -/
theorem set_longest_expiry_panics : let _ := Platform.ascii
    parseExpiry [utf8 "EX", utf8 "18446744073709551615"] =
        .ok (some (Duration.ofSeconds 18446744073709551615)) ∧
      Panics (set (utf8 "key") (utf8 "value") [utf8 "EX", utf8 "18446744073709551615"])
        (fun _ => {}) 0 {} :=
  ⟨rfl, _, rfl⟩

end Strings

end RedisServer
