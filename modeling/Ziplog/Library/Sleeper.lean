import Mathlib.Data.Nat.Notation
import Mathlib.Tactic.SplitIfs

/-!
# A condition variable with one waiting thread

The one thread that waits is awake, asleep in `wait`, or woken and about to have the lock again. A
`notify_one` that finds it awake or woken is lost. `owed` counts the calls of `notify_one` that
other threads are still going to make for changes they have made already.

`Justified ready` says that the thread does not sleep through: it is asleep while it is `ready` only
if a notification is owed. A change of the data keeps this when it notifies at once (`notify`) or
owes a notification (`owe`).
-/

inductive SleepPhase
  | awake
  | asleep
  | woken
  deriving DecidableEq

structure Sleeper where
  phase : SleepPhase
  owed : ℕ
  deriving DecidableEq

namespace Sleeper

def init : Sleeper := ⟨.awake, 0⟩

/-- `notify_one`. -/
def notify (s : Sleeper) : Sleeper :=
  match s.phase with
  | .asleep => { s with phase := .woken }
  | .awake | .woken => s

/-- A notification will come. -/
def owe (s : Sleeper) : Sleeper := { s with owed := s.owed + 1 }

/-- A notification that was owed comes. -/
def pay (s : Sleeper) : Option Sleeper :=
  if s.owed = 0 then none else some { s.notify with owed := s.owed - 1 }

/-- The thread gives the lock back and falls asleep. -/
def sleep (s : Sleeper) : Sleeper := { s with phase := .asleep }

/-- The thread goes on with the lock. -/
def rise (s : Sleeper) : Sleeper := { s with phase := .awake }

/-- The thread leaves `wait` without being notified. -/
def wakeUp (s : Sleeper) : Option Sleeper :=
  if s.phase = .asleep then some { s with phase := .woken } else none

/-- The thread sleeps while it is ready only if a notification is owed. -/
def Justified (s : Sleeper) (ready : Prop) : Prop := s.phase = .asleep → ready → 0 < s.owed

variable {s s' : Sleeper} {ready ready' : Prop}

theorem notify_phase_ne (s : Sleeper) : s.notify.phase ≠ .asleep := by
  unfold notify
  cases h : s.phase <;> simp [h]

@[simp] theorem notify_owed (s : Sleeper) : s.notify.owed = s.owed := by
  unfold notify
  cases s.phase <;> rfl

theorem notify_awake_iff : s.notify.phase = .awake ↔ s.phase = .awake := by
  unfold notify
  cases h : s.phase <;> simp [h]

theorem eq_of_pay (h : s.pay = some s') :
    0 < s.owed ∧ s'.phase = s.notify.phase ∧ s'.owed = s.owed - 1 := by
  unfold pay at h
  split_ifs at h with hzero
  cases h
  exact ⟨Nat.pos_of_ne_zero hzero, rfl, rfl⟩

theorem eq_of_wakeUp (h : s.wakeUp = some s') :
    s.phase = .asleep ∧ s' = { s with phase := .woken } := by
  unfold wakeUp at h
  split_ifs at h with hasleep
  cases h
  exact ⟨hasleep, rfl⟩

theorem justified_of_ne (h : s.phase ≠ .asleep) : s.Justified ready :=
  fun hasleep => absurd hasleep h

theorem justified_notify (s : Sleeper) : s.notify.Justified ready :=
  justified_of_ne (notify_phase_ne s)

theorem justified_owe (s : Sleeper) : s.owe.Justified ready := fun _ _ => Nat.succ_pos _

theorem justified_sleep (h : ¬ ready) : s.sleep.Justified ready := fun _ hready => absurd hready h

theorem Justified.mono (h : s.Justified ready) (hready : ready' → ready) : s.Justified ready' :=
  fun hasleep hr => h hasleep (hready hr)

end Sleeper
