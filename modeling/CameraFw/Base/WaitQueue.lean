import Mathlib.Logic.Function.Basic

/-!
# Wait queues

A task that waits for a condition enters a queue, marks itself as interruptible, looks at the condition
and calls the scheduler, which keeps it off the processor as long as the mark is there. A wake-up takes
the mark off every task in the queue. No wake-up is lost if a task with the mark that has looked has not
seen a condition that holds by now.
-/

namespace CameraFw.Base

/-- A task at `pc` of its program. -/
structure Waiter (π : Type) where
  pc : π
  queued : Bool
  interruptible : Bool
  deriving DecidableEq, Repr

def Waiter.wake {π : Type} (w : Waiter π) : Waiter π :=
  if w.queued then { w with interruptible := false } else w

/-- The tasks with the mark are in the queue, and the condition does not hold if they have looked. -/
def NoLostWake {ι π γ : Type} (looked : π → Prop) (ready : γ → Prop) (g : γ) (ws : ι → Waiter π) : Prop :=
  ∀ i, (ws i).interruptible = true → (ws i).queued = true ∧ (looked (ws i).pc → ¬ ready g)

section

variable {ι π γ : Type} {looked : π → Prop} {ready : γ → Prop} {g g' : γ} {ws : ι → Waiter π}

@[simp] theorem Waiter.wake_pc (w : Waiter π) : w.wake.pc = w.pc := by
  unfold Waiter.wake
  split <;> rfl

theorem NoLostWake.not_interruptible_wake (h : NoLostWake looked ready g ws) (i : ι) :
    (ws i).wake.interruptible = false := by
  rw [Waiter.wake]
  split
  · rfl
  · rename_i hq
    cases hint : (ws i).interruptible with
    | false => rfl
    | true => exact absurd (h i hint).1 hq

/-- Whatever has become true, the wake-up is enough. -/
theorem NoLostWake.wake (h : NoLostWake looked ready g ws) (g' : γ) :
    NoLostWake looked ready g' fun i => (ws i).wake := by
  intro i hint
  rw [h.not_interruptible_wake i] at hint
  cases hint

/-- What does not make the condition true needs no wake-up. -/
theorem NoLostWake.mono (h : NoLostWake looked ready g ws) (hg : ready g' → ready g) :
    NoLostWake looked ready g' ws :=
  fun i hint => ⟨(h i hint).1, fun hl hr => (h i hint).2 hl (hg hr)⟩

/-- A step of one task. -/
theorem NoLostWake.update [DecidableEq ι] (h : NoLostWake looked ready g ws) (i : ι) {w : Waiter π}
    (hw : w.interruptible = true → w.queued = true ∧ (looked w.pc → ¬ ready g)) :
    NoLostWake looked ready g (Function.update ws i w) := by
  intro j
  rcases eq_or_ne j i with rfl | hne
  · rw [Function.update_self]; exact hw
  · rw [Function.update_of_ne hne]; exact h j

end

end CameraFw.Base
