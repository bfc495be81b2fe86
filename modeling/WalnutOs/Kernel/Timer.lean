import Mathlib.Logic.Function.Iterate
import Mathlib.Algebra.Group.Nat.Defs
import Mathlib.Tactic.Common

/-! The tick counter of `kernel/idt.cc` and the wait for it. -/

namespace WalnutOs.Kernel

/-- What `timer_handler` does to the counter. -/
def timerHandler (timer : BitVec 32) : BitVec 32 := timer + 1

/-- The loop of `sleep`. Each number of the schedule is that of the ticks before the next check;
the result is the number of ticks at the check that ends the loop, `none` while it waits. -/
def sleepLoop (deadline : BitVec 32) : BitVec 32 → Nat → List Nat → Option Nat
  | _, _, [] => none
  | timer, counted, ticks :: rest =>
    let timer := timerHandler^[ticks] timer
    if timer < deadline then sleepLoop deadline timer (counted + ticks) rest else some (counted + ticks)

def sleep (timer milliseconds : BitVec 32) (schedule : List Nat) : Option Nat :=
  sleepLoop (timer + milliseconds) timer 0 schedule

/-- If the call returns, as many ticks have been counted as were asked for. -/
def SleepsEnough (timer milliseconds : BitVec 32) (schedule : List Nat) : Prop :=
  ∀ counted, sleep timer milliseconds schedule = some counted → milliseconds.toNat ≤ counted

/-- The deadline does not wrap, or the counter has wrapped before the first check. -/
def WrapsTogether (timer milliseconds : BitVec 32) (schedule : List Nat) : Prop :=
  timer.toNat + milliseconds.toNat < 2 ^ 32 ∨ ∀ ticks ∈ schedule.head?, 2 ^ 32 ≤ timer.toNat + ticks

variable {timer milliseconds deadline : BitVec 32} {schedule : List Nat} {start counted : Nat}

theorem timerHandler_iterate (timer : BitVec 32) (ticks : Nat) :
    (timerHandler^[ticks] timer).toNat = (timer.toNat + ticks) % 2 ^ 32 := by
  induction ticks with
  | zero => exact (Nat.mod_eq_of_lt timer.isLt).symm
  | succ ticks ih =>
    have one : (1 : BitVec 32).toNat = 1 := rfl
    rw [Function.iterate_succ_apply', timerHandler, BitVec.toNat_add, ih, one]
    omega

/-- The loop ends at a count at which the counter has reached the deadline. -/
theorem sleepLoop_some (current : timer.toNat = (start + counted) % 2 ^ 32) {total : Nat}
    (returned : sleepLoop deadline timer counted schedule = some total) :
    (∀ ticks ∈ schedule.head?, counted + ticks ≤ total) ∧ deadline.toNat ≤ (start + total) % 2 ^ 32 := by
  induction schedule generalizing timer counted with
  | nil => cases returned
  | cons ticks rest ih =>
    have next : (timerHandler^[ticks] timer).toNat = (start + (counted + ticks)) % 2 ^ 32 := by
      rw [timerHandler_iterate, current]
      omega
    simp only [List.head?_cons, Option.mem_def, Option.some.injEq, forall_eq']
    rw [sleepLoop] at returned
    split at returned
    · obtain ⟨later, reached⟩ := ih next returned
      refine ⟨?_, reached⟩
      cases rest with
      | nil => cases returned
      | cons more rest => exact Nat.le_trans (Nat.le_add_right _ more) (later more rfl)
    · rename_i reached
      cases returned
      refine ⟨Nat.le_refl _, ?_⟩
      rw [← next]
      exact Nat.le_of_not_lt reached

/-- A deadline that wraps is behind a counter that does not: the first check ends the loop. -/
theorem sleep_wrapped {ticks : Nat} {rest : List Nat} (wraps : 2 ^ 32 ≤ timer.toNat + milliseconds.toNat)
    (before : timer.toNat + ticks < 2 ^ 32) : sleep timer milliseconds (ticks :: rest) = some ticks := by
  have reached : ¬timerHandler^[ticks] timer < timer + milliseconds := by
    have bound := milliseconds.isLt
    rw [BitVec.lt_def, timerHandler_iterate, BitVec.toNat_add]
    omega
  rw [sleep, sleepLoop, if_neg reached, Nat.zero_add]

/-- For every start of the counter, every duration and every schedule of ticks, `sleep` waits long
enough exactly if the deadline wraps together with the counter. -/
theorem sleepsEnough_iff (timer milliseconds : BitVec 32) (schedule : List Nat) :
    SleepsEnough timer milliseconds schedule ↔ WrapsTogether timer milliseconds schedule := by
  have bound := milliseconds.isLt
  constructor
  · intro enough
    by_cases wraps : timer.toNat + milliseconds.toNat < 2 ^ 32
    · exact .inl wraps
    · refine .inr fun ticks first => Nat.le_of_not_lt fun before => ?_
      obtain ⟨rest, rfl⟩ := List.head?_eq_some_iff.mp first
      have short := enough ticks (sleep_wrapped (Nat.le_of_not_lt wraps) before)
      omega
  · intro together total returned
    have current : timer.toNat = (timer.toNat + 0) % 2 ^ 32 := (Nat.mod_eq_of_lt timer.isLt).symm
    obtain ⟨first, reached⟩ := sleepLoop_some current returned
    rw [BitVec.toNat_add] at reached
    rcases together with straight | wrapped
    · rw [Nat.mod_eq_of_lt straight] at reached
      have most := Nat.mod_le (timer.toNat + total) (2 ^ 32)
      omega
    · cases schedule with
      | nil => cases returned
      | cons ticks rest =>
        have passed := wrapped ticks rfl
        have least := first ticks rfl
        by_cases straight : timer.toNat + milliseconds.toNat < 2 ^ 32
        · omega
        · omega

/-- With the counter about to wrap, a sleep of two ticks returns at once. -/
theorem not_sleepsEnough : ¬∀ timer milliseconds schedule, SleepsEnough timer milliseconds schedule := by
  intro claim
  exact absurd (claim 0xFFFFFFFF 2 [0] 0 (by decide)) (by decide)

end WalnutOs.Kernel
