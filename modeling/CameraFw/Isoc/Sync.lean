import CameraFw.Base.WaitQueue
import CameraFw.Isoc.BufferTheorems

/-!
# Waiting for a frame

`VIDIOCMCAPTURE` and `VIDIOCSYNC` of `pwc_video_ioctl`, with the wake-ups of `pwc_isoc_handler` and
`usb_pwc_disconnect1`. Any number of tasks call them; an instruction of a task is one step, and so is a
run of the handler, which nothing interrupts. A task puts itself into the queue and looks before it
marks itself as interruptible, and so does not sleep in its first round.
-/

namespace CameraFw.Isoc

open CameraFw.Base

def EFAULT : Int := 14
def ENODEV : Int := 19
def ERESTARTSYS : Int := 512

/-- Where a task is in `VIDIOCSYNC`, with the image buffer it wants. -/
inductive SyncPc (m : Nat) where
  | idle
  -- in front of `add_wait_queue`
  | entered (mbuf : Fin m)
  -- at the head of the loop
  | checking (mbuf : Fin m)
  | scheduling (mbuf : Fin m)
  -- behind `schedule`
  | woken (mbuf : Fin m)
  -- behind the loop
  | ready (mbuf : Fin m)
  | decompressing (mbuf : Fin m)
  | leaving (retval : Int)
  deriving DecidableEq, Repr

abbrev Syncer (m : Nat) := Waiter (SyncPc m)

def Syncer.new {m : Nat} : Syncer m := ⟨.idle, false, false⟩

/-- What a task finds: `signal_pending`, and whether `pwc_decompress` fails. -/
structure SyncFinds where
  signal : Bool
  fails : Bool
  deriving DecidableEq, Repr

/-- `n` frame buffers, `m` image buffers and `k` tasks. -/
structure Camera (n m k : Nat) where
  bufs : Buffers n
  unplugged : Bool
  imageUsed : Fin m → Bool
  tasks : Fin k → Syncer m

namespace Camera

variable {n m k : Nat}

def setTask (c : Camera n m k) (i : Fin k) (w : Syncer m) : Camera n m k :=
  { c with tasks := Function.update c.tasks i w }

def wake (c : Camera n m k) : Camera n m k := { c with tasks := fun i => (c.tasks i).wake }

/-- The end of a call that has got so far. -/
def finish (c : Camera n m k) (i : Fin k) (mbuf : Fin m) (retval : Int) : Camera n m k :=
  { c.setTask i ⟨.leaving retval, false, false⟩ with imageUsed := Function.update c.imageUsed mbuf false }

/-- The next instruction of `VIDIOCSYNC`. -/
def sync (c : Camera n m k) (i : Fin k) (f : SyncFinds) : Option (Camera n m k) :=
  let w := c.tasks i
  match w.pc with
  | .idle => none
  | .entered mbuf => some (c.setTask i { w with pc := .checking mbuf, queued := true })
  | .checking mbuf =>
      if c.bufs.full.head = none then
        if c.unplugged then some (c.setTask i ⟨.leaving (-ENODEV), false, false⟩)
        else if f.signal then some (c.setTask i ⟨.leaving (-ERESTARTSYS), false, false⟩)
        else some (c.setTask i { w with pc := .scheduling mbuf })
      else some (c.setTask i ⟨.ready mbuf, false, false⟩)
  -- the scheduler keeps a task with the mark, unless there is a signal for it
  | .scheduling mbuf =>
      if w.interruptible && !f.signal then none
      else some (c.setTask i { w with pc := .woken mbuf, interruptible := false })
  | .woken mbuf => some (c.setTask i { w with pc := .checking mbuf, interruptible := true })
  | .ready mbuf =>
      -- without a frame, or while another one is being read, `pwc_handle_frame` returns 0
      if c.bufs.readFrame = none ∧ c.bufs.full.head ≠ none then
        some { c.setTask i { w with pc := .decompressing mbuf } with bufs := c.bufs.grab }
      else some (c.finish i mbuf 0)
  | .decompressing mbuf =>
      c.bufs.giveBack.map fun b => { c.finish i mbuf (if f.fails then -EFAULT else 0) with bufs := b }
  | .leaving _ => some (c.setTask i .new)

end Camera

def BufferOp.ofHandler : BufferOp → Bool
  | .write _ | .nextFillFrame => true
  | _ => false

inductive CameraEvent (m k : Nat) where
  | handler (ops : List BufferOp)
  | unplug
  | capture (frame : Fin m)
  | sync (i : Fin k) (mbuf : Fin m)
  | run (i : Fin k) (f : SyncFinds)
  -- a signal is sent to a task
  | signal (i : Fin k)

def Camera.step {n m k : Nat} (c : Camera n m k) : CameraEvent m k → Option (Camera n m k)
  | .handler ops =>
      if ops.all BufferOp.ofHandler then
        (run Buffers.step c.bufs ops).map fun b =>
          if completions ops = 0 then { c with bufs := b } else Camera.wake { c with bufs := b }
      else none
  | .unplug => some (Camera.wake { c with unplugged := true })
  -- a buffer in use gives -EBUSY
  | .capture frame => some { c with imageUsed := Function.update c.imageUsed frame true }
  -- a buffer that was not requested gives -EINVAL
  | .sync i mbuf =>
      if (c.tasks i).pc = .idle then
        if c.imageUsed mbuf then some (c.setTask i { c.tasks i with pc := .entered mbuf }) else some c
      else none
  | .run i f => c.sync i f
  | .signal i => some (c.setTask i { c.tasks i with interruptible := false })

def Camera.opened {n : Nat} (m k : Nat) (s : Buffers (n + 1)) : Camera (n + 1) m k :=
  ⟨s.pwcResetBuffers, false, fun _ => false, fun _ => .new⟩

def Camera.Reached {n m k : Nat} (c : Camera (n + 1) m k) : Prop :=
  ∃ s es, run Camera.step (.opened m k s) es = some c

/-! ## No frame waits for a sleeping task -/

/-- The task has seen that there is no frame. -/
def SyncPc.Looked {m : Nat} : SyncPc m → Prop
  | .scheduling _ => True
  | _ => False

/-- The task is in the queue. -/
def SyncPc.Inside {m : Nat} : SyncPc m → Prop
  | .checking _ | .scheduling _ | .woken _ => True
  | _ => False

namespace Camera

variable {n m k : Nat} {c c' : Camera n m k} {i : Fin k}

/-- What the tasks wait for: a full frame, or that the camera is gone. -/
def Ready (g : Option (Fin n) × Bool) : Prop := g.1 ≠ none ∨ g.2 = true

structure Inv (c : Camera n m k) : Prop where
  wake : NoLostWake SyncPc.Looked Ready (c.bufs.full.head, c.unplugged) c.tasks
  queued : ∀ i, (c.tasks i).pc.Inside → (c.tasks i).queued = true
  -- the pointer to the last empty frame is set at the reset
  tail : c.bufs.empty.tail ≠ none

/-- A task does a step, and makes nothing ready. -/
theorem Inv.setTask (h : c.Inv) (i : Fin k) {w : Syncer m} (hqueued : w.pc.Inside → w.queued = true)
    (hwake : w.interruptible = true →
      w.queued = true ∧ (w.pc.Looked → ¬Ready (c.bufs.full.head, c.unplugged))) :
    (c.setTask i w).Inv where
  wake := h.wake.update i hwake
  queued := by
    intro j
    rcases eq_or_ne j i with rfl | hne
    · simpa only [Camera.setTask, Function.update_self] using hqueued
    · simpa only [Camera.setTask, Function.update_of_ne hne] using h.queued j
  tail := h.tail

theorem Inv.finish (h : c.Inv) (i : Fin k) (mbuf : Fin m) (retval : Int) : (c.finish i mbuf retval).Inv := by
  have hset := h.setTask i (w := ⟨.leaving retval, false, false⟩) False.elim nofun
  exact ⟨hset.wake, hset.queued, hset.tail⟩

/-- Frames are taken, but none gets ready. -/
theorem Inv.withBufs (h : c.Inv) {b : Buffers n} (hfull : b.full.head ≠ none → c.bufs.full.head ≠ none)
    (htail : b.empty.tail ≠ none) : Inv { c with bufs := b } :=
  ⟨h.wake.mono fun hr => hr.imp_left hfull, h.queued, htail⟩

theorem grab_full {s : Buffers n} (h : s.grab.full.head ≠ none) : s.full.head ≠ none := by
  intro hnone
  have hsame : s.grab = s := by simp only [Buffers.grab, hnone]; cases s.readFrame <;> rfl
  exact h (by rw [hsame]; exact hnone)

theorem grab_empty (s : Buffers n) : s.grab.empty = s.empty := by
  unfold Buffers.grab
  split <;> rfl

theorem giveBack_spec {s : Buffers n} (h : s.empty.tail ≠ none) :
    ∃ b, s.giveBack = some b ∧ b.full = s.full ∧ b.empty.tail ≠ none := by
  cases hr : s.readFrame with
  | none => exact ⟨s, by simp only [Buffers.giveBack, hr], rfl, h⟩
  | some f =>
      obtain ⟨q, next, happ, htail, -⟩ := Ends.append_of_tail (fun _ => h) s.next f
      exact ⟨_, Buffers.giveBack_of_read hr happ, rfl, by rw [htail]; exact Option.some_ne_none f⟩

theorem nextFillFrame_tail {s b : Buffers n} {ret : Bool} (h : s.empty.tail ≠ none)
    (hnext : s.pwcNextFillFrame = some (ret, b)) :
    b.empty.tail ≠ none := by
  unfold Buffers.pwcNextFillFrame at hnext
  obtain ⟨⟨q, next⟩, -, hnext⟩ := Option.bind_eq_some_iff.mp hnext
  dsimp only at hnext
  split at hnext
  · cases hnext
    exact h
  · obtain ⟨f, -, hnext⟩ := Option.bind_eq_some_iff.mp hnext
    cases hnext
    exact h

/-- What the handler does to the buffers: without a completed frame it only writes. -/
theorem handler_spec :
    ∀ {ops : List BufferOp} {s b : Buffers n}, run Buffers.step s ops = some b →
      ops.all BufferOp.ofHandler = true →
    s.empty.tail ≠ none → b.empty.tail ≠ none ∧ (completions ops = 0 → b.full = s.full)
  | [], s, b, hrun, _, h => by
      cases hrun
      exact ⟨h, fun _ => rfl⟩
  | op :: ops, s, b, hrun, hall, h => by
      simp only [List.all_cons, Bool.and_eq_true] at hall
      simp only [run] at hrun
      cases hstep : s.step op with
      | none => simp [hstep] at hrun
      | some s' =>
          simp only [hstep] at hrun
          rw [completions_cons]
          cases op with
          | write f =>
              obtain ⟨i, -, rfl⟩ := Option.map_eq_some_iff.mp hstep
              obtain ⟨htail, hfull⟩ := handler_spec hrun hall.2 h
              exact ⟨htail, fun hc => hfull (by simpa [BufferOp.completions] using hc)⟩
          | nextFillFrame =>
              obtain ⟨⟨ret, s''⟩, hnext, rfl⟩ := Option.map_eq_some_iff.mp hstep
              exact ⟨(handler_spec hrun hall.2 (nextFillFrame_tail h hnext)).1,
                fun hc => by simp [BufferOp.completions] at hc⟩
          | grab => cases hall.1
          | giveBack => cases hall.1

theorem Inv.wakeAll (h : c.Inv) {b : Buffers n} {u : Bool} (htail : b.empty.tail ≠ none) :
    (Camera.wake { c with bufs := b, unplugged := u }).Inv where
  wake := h.wake.wake _
  queued := by
    intro i hi
    have hq := h.queued i (by simpa [Camera.wake] using hi)
    simp [Camera.wake, Waiter.wake, hq]
  tail := htail

theorem Inv.sync (h : c.Inv) {f : SyncFinds} (hstep : c.sync i f = some c') : c'.Inv := by
  unfold Camera.sync at hstep
  have hq := h.queued i
  have hw := h.wake i
  cases hpc : (c.tasks i).pc with
  | idle => simp [hpc] at hstep
  | entered mbuf =>
      simp only [hpc, Option.some.injEq] at hstep
      subst hstep
      exact h.setTask i (fun _ => rfl) fun _ => ⟨rfl, False.elim⟩
  | checking mbuf =>
      rw [hpc] at hq
      simp only [hpc] at hstep
      by_cases hfull : c.bufs.full.head = none
      · rw [if_pos hfull] at hstep
        split at hstep
        · cases hstep
          exact h.setTask i False.elim nofun
        · rename_i hplug
          split at hstep
          · cases hstep
            exact h.setTask i False.elim nofun
          · cases hstep
            exact h.setTask i (fun _ => hq trivial) fun _ =>
              ⟨hq trivial, fun _ hr => hr.elim (fun hr => hr hfull) hplug⟩
      · rw [if_neg hfull] at hstep
        cases hstep
        exact h.setTask i False.elim nofun
  | scheduling mbuf =>
      rw [hpc] at hq
      simp only [hpc] at hstep
      split at hstep
      · cases hstep
      · cases hstep
        exact h.setTask i (fun _ => hq trivial) nofun
  | woken mbuf =>
      rw [hpc] at hq
      simp only [hpc, Option.some.injEq] at hstep
      subst hstep
      exact h.setTask i (fun _ => hq trivial) fun _ => ⟨hq trivial, False.elim⟩
  | ready mbuf =>
      simp only [hpc] at hstep
      split at hstep
      · cases hstep
        have hset := h.setTask i
          (w := { c.tasks i with pc := .decompressing mbuf }) False.elim fun hint => ⟨(hw hint).1, False.elim⟩
        exact hset.withBufs grab_full (by rw [grab_empty]; exact h.tail)
      · cases hstep
        exact h.finish i mbuf 0
  | decompressing mbuf =>
      simp only [hpc] at hstep
      obtain ⟨b, hgive, hfull, htail⟩ := giveBack_spec h.tail
      simp only [hgive, Option.map_some, Option.some.injEq] at hstep
      subst hstep
      exact (h.finish i mbuf _).withBufs (fun hne => by rwa [hfull] at hne) htail
  | leaving _ =>
      simp only [hpc, Option.some.injEq] at hstep
      subst hstep
      exact h.setTask i False.elim nofun

theorem Inv.step (h : c.Inv) {e : CameraEvent m k} (hstep : c.step e = some c') : c'.Inv := by
  cases e with
  | handler ops =>
      simp only [Camera.step] at hstep
      split at hstep
      · rename_i hall
        obtain ⟨b, hrun, hstep⟩ := Option.map_eq_some_iff.mp hstep
        obtain ⟨htail, hfull⟩ := handler_spec hrun hall h.tail
        split at hstep
        · rename_i hc
          subst hstep
          exact h.withBufs (fun hne => by rwa [hfull hc] at hne) htail
        · subst hstep
          exact h.wakeAll htail
      · cases hstep
  | unplug =>
      cases hstep
      exact h.wakeAll h.tail
  | capture frame =>
      cases hstep
      exact ⟨h.wake, h.queued, h.tail⟩
  | sync i mbuf =>
      simp only [Camera.step] at hstep
      split at hstep
      · split at hstep
        · cases hstep
          exact h.setTask i False.elim fun hint => ⟨(h.wake i hint).1, False.elim⟩
        · cases hstep
          exact h
      · cases hstep
  | run i f => exact h.sync hstep
  | signal i =>
      cases hstep
      exact h.setTask i (h.queued i) nofun

theorem Inv.opened {n : Nat} (m k : Nat) (s : Buffers (n + 1)) : (Camera.opened m k s).Inv where
  wake := fun i hint => by cases hint
  queued := fun _ => False.elim
  tail := nofun

theorem Reached.inv {n : Nat} {c : Camera (n + 1) m k} (h : c.Reached) : c.Inv := by
  obtain ⟨s, es, hes⟩ := h
  exact (always_of_step (fun _ _ _ hc hs => hc.step hs) es _ (.opened m k s)).last hes

/-- The only place where a call does not go on. -/
theorem sync_eq_none (htail : c.bufs.empty.tail ≠ none) {f : SyncFinds} (h : c.sync i f = none) :
    (c.tasks i).pc = .idle ∨ (c.tasks i).pc.Looked ∧ (c.tasks i).interruptible = true := by
  unfold Camera.sync at h
  cases hpc : (c.tasks i).pc with
  | idle => exact .inl rfl
  | entered mbuf => simp [hpc] at h
  | checking mbuf =>
      simp only [hpc] at h
      split at h
      · split at h
        · cases h
        · split at h <;> cases h
      · cases h
  | scheduling mbuf =>
      simp only [hpc] at h
      split at h
      · rename_i hcond
        exact .inr ⟨trivial, (Bool.and_eq_true_iff.mp hcond).1⟩
      · cases h
  | woken mbuf => simp [hpc] at h
  | ready mbuf =>
      simp only [hpc] at h
      split at h <;> cases h
  | decompressing mbuf =>
      obtain ⟨b, hgive, -⟩ := giveBack_spec htail
      simp [hpc, hgive] at h
  | leaving _ => simp [hpc] at h

/-- While a full frame waits, or once the camera is gone, no task sleeps in `VIDIOCSYNC`: each of them
can go on. -/
theorem syncers_awake (n m k : Nat) (c : Camera (n + 1) m k) (h : c.Reached)
    (hready : c.bufs.full.head ≠ none ∨ c.unplugged = true) (i : Fin k)
    (hcall : (c.tasks i).pc ≠ .idle) (f : SyncFinds) : (c.step (.run i f)).isSome = true := by
  cases hstep : c.sync i f with
  | some c' => simp [Camera.step, hstep]
  | none =>
      obtain hpc | ⟨hlooked, hint⟩ := sync_eq_none h.inv.tail hstep
      · exact absurd hpc hcall
      · exact absurd hready ((h.inv.wake i hint).2 hlooked)

/-- A task that has gone to sleep when a frame is completed. -/
theorem syncers_awake_first_frame : ∃ c : Camera 3 2 1,
    run Camera.step (.opened 2 1 threeBuffers)
      ([.capture 0, .sync 0 0] ++ List.replicate 5 (.run 0 ⟨false, false⟩) ++
      [.handler [.nextFillFrame]]) = some c ∧ (c.tasks 0).pc = .scheduling 0 ∧ ∀ f,
        (c.step (.run 0 f)).isSome = true := by
  obtain ⟨c, hc⟩ := Option.isSome_iff_exists.mp
    (show (run Camera.step (.opened 2 1 threeBuffers)
      ([.capture 0, .sync 0 0] ++ List.replicate 5 (.run 0 ⟨false, false⟩) ++
      [.handler [.nextFillFrame]])).isSome = true by decide)
  refine ⟨c, hc, ?_, syncers_awake 2 2 1 c ⟨_, _, hc⟩ ?_ 0 ?_⟩
  all_goals cases hc; decide

end Camera

end CameraFw.Isoc
