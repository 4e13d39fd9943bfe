import CameraFw.Rtc.Device

/-!
# No alarm is lost

Over all interleavings of the readers with the interrupt: each alarm since the file was opened is
waiting, held by a reader, delivered or taken away by a fault, and is in only one of these places; no
reader sleeps while an alarm waits. A reader that has been woken does not sleep again before it returns,
not even if another one has taken the alarm.
-/

namespace CameraFw.Rtc

open CameraFw.Base

/-- The alarms that a reader has taken and not yet passed on. -/
def ReadPc.held : ReadPc → BitVec 32
  | .took data => data
  | _ => 0

/-- The reader has seen that no alarm waits. -/
def ReadPc.Looked : ReadPc → Prop
  | .took data => data = 0
  | .scheduling => True
  | _ => False

/-- The reader is in the queue. -/
def ReadPc.Inside : ReadPc → Prop
  | .idle | .entered => False
  | _ => True

namespace Device

variable {n : Nat} {d d' : Device n}

def Waits (data : BitVec 32) : Prop := data ≠ 0

structure Inv (d : Device n) : Prop where
  wake : NoLostWake ReadPc.Looked Waits d.rtcIrqData d.readers
  queued : ∀ i, (d.readers i).pc.Inside → (d.readers i).queued = true
  closed : d.isOpen = false → ∀ i, (d.readers i).pc = .idle
  balance : d.isOpen = true → d.rtcIrqData + ∑ i, (d.readers i).pc.held + d.delivered + d.faulted = d.fired

theorem sum_held_update (rs : Fin n → Reader) (i : Fin n) (r : Reader) :
    ∑ j, (Function.update rs i r j).pc.held + (rs i).pc.held = ∑ j, (rs j).pc.held + r.pc.held := by
  have hupd : ∀ j, (Function.update rs i r j).pc.held =
      Function.update (fun j => (rs j).pc.held) i r.pc.held j := by
    intro j
    rcases eq_or_ne j i with rfl | hne
    · simp
    · simp [hne]
  simp only [hupd]
  rw [Finset.sum_update_of_mem (Finset.mem_univ i), ← Finset.add_sum_erase _ _ (Finset.mem_univ i),
    Finset.sdiff_singleton_eq_erase]
  ring

/-! ## Steps -/

/-- A reader does a step inside of its call. -/
theorem Inv.reader (h : d.Inv) (i : Fin n) {r : Reader} {data delivered faulted : BitVec 32}
    (hclosed : d.isOpen = false → r.pc = .idle) (hdata : data = d.rtcIrqData ∨ data = 0)
    (hqueued : r.pc.Inside → r.queued = true)
    (hwake : r.interruptible = true → r.queued = true ∧ (r.pc.Looked → data = 0))
    (hsum : data + r.pc.held + delivered + faulted =
      d.rtcIrqData + (d.readers i).pc.held + d.delivered + d.faulted) :
    Inv { d.setReader i r with rtcIrqData := data, delivered := delivered, faulted := faulted } where
  wake := by
    refine (h.wake.mono ?_).update i fun hint => ⟨(hwake hint).1, fun hl => not_not.mpr ((hwake hint).2 hl)⟩
    rcases hdata with rfl | rfl
    · exact id
    · exact fun h0 => absurd rfl h0
  queued := by
    intro j
    rcases eq_or_ne j i with rfl | hne
    · simpa only [setReader, Function.update_self] using hqueued
    · simpa only [setReader, Function.update_of_ne hne] using h.queued j
  closed := by
    intro hc j
    rcases eq_or_ne j i with rfl | hne
    · simpa only [setReader, Function.update_self] using hclosed hc
    · simpa only [setReader, Function.update_of_ne hne] using h.closed hc j
  balance := by
    intro hopen
    have hb := h.balance hopen
    have hu := sum_held_update d.readers i r
    show data + ∑ j, (Function.update d.readers i r j).pc.held + delivered + faulted = d.fired
    refine add_right_cancel (b := (d.readers i).pc.held) ?_
    calc data + ∑ j, (Function.update d.readers i r j).pc.held + delivered + faulted + (d.readers i).pc.held
        = data + (∑ j, (Function.update d.readers i r j).pc.held + (d.readers i).pc.held) + delivered +
            faulted := by ring
      _ = data + r.pc.held + delivered + faulted + ∑ j, (d.readers j).pc.held := by rw [hu]; ring
      _ = d.rtcIrqData + ∑ j, (d.readers j).pc.held + d.delivered + d.faulted + (d.readers i).pc.held := by
        rw [hsum]; ring
      _ = d.fired + (d.readers i).pc.held := by rw [hb]

/-- There is no call in a closed file. -/
theorem Inv.inCall (h : d.Inv) {i : Fin n} {pc : ReadPc} (hi : (d.readers i).pc ≠ .idle) :
    d.isOpen = false → pc = .idle :=
  fun hc => absurd (h.closed hc i) hi

/-- A step that only moves a reader and its marks. -/
theorem Inv.move (h : d.Inv) (i : Fin n) {r : Reader} (hclosed : d.isOpen = false → r.pc = .idle)
    (hqueued : r.pc.Inside → r.queued = true)
    (hwake : r.interruptible = true → r.queued = true ∧ (r.pc.Looked → d.rtcIrqData = 0))
    (hheld : r.pc.held = (d.readers i).pc.held) : (d.setReader i r).Inv :=
  h.reader i hclosed (.inl rfl) hqueued hwake (by rw [hheld])

theorem Inv.rtcRead (h : d.Inv) {i : Fin n} {f : Finds} (hstep : d.rtcRead i f = some d') : d'.Inv := by
  unfold Device.rtcRead at hstep
  have hq := h.queued i
  have hw := h.wake i
  cases hpc : (d.readers i).pc with
  | idle => simp [hpc] at hstep
  | entered =>
      have hcall : (d.readers i).pc ≠ .idle := by rw [hpc]; exact nofun
      simp only [hpc, Option.some.injEq] at hstep
      subst hstep
      exact h.move i (h.inCall hcall) (fun _ => rfl) (fun _ => ⟨rfl, False.elim⟩) (by rw [hpc]; rfl)
  | queued =>
      have hcall : (d.readers i).pc ≠ .idle := by rw [hpc]; exact nofun
      simp only [hpc, Option.some.injEq] at hstep
      subst hstep
      rw [hpc] at hq
      exact h.move i (h.inCall hcall) (fun _ => hq trivial) (fun _ => ⟨hq trivial, False.elim⟩)
        (by rw [hpc]; rfl)
  | checking =>
      have hcall : (d.readers i).pc ≠ .idle := by rw [hpc]; exact nofun
      simp only [hpc, Option.some.injEq] at hstep
      subst hstep
      rw [hpc] at hq
      exact h.reader i (h.inCall hcall) (.inr rfl) (fun _ => hq trivial) (fun _ => ⟨hq trivial, fun _ => rfl⟩)
        (by rw [hpc]; simp [ReadPc.held, setReader])
  | took data =>
      have hcall : (d.readers i).pc ≠ .idle := by rw [hpc]; exact nofun
      rw [hpc] at hq hw
      simp only [hpc] at hstep
      by_cases h0 : data = 0
      · subst h0
        rw [if_neg (by simp)] at hstep
        split at hstep
        · cases hstep
          exact h.move i (h.inCall hcall) (fun _ => hq trivial) (fun _ => ⟨hq trivial, False.elim⟩)
            (by rw [hpc]; rfl)
        · split at hstep
          · cases hstep
            exact h.move i (h.inCall hcall) (fun _ => hq trivial) (fun _ => ⟨hq trivial, False.elim⟩)
              (by rw [hpc]; rfl)
          · cases hstep
            exact h.move i (h.inCall hcall) (fun _ => hq trivial)
              (fun hint => ⟨hq trivial, fun _ => not_not.mp ((hw hint).2 rfl)⟩) (by rw [hpc]; rfl)
      · rw [if_pos h0] at hstep
        split at hstep
        · cases hstep
          exact h.reader i (h.inCall hcall) (.inl rfl) (fun _ => hq trivial)
            (fun _ => ⟨hq trivial, False.elim⟩) (by rw [hpc]; simp only [ReadPc.held, setReader]; ring)
        · cases hstep
          exact h.reader i (h.inCall hcall) (.inl rfl) (fun _ => hq trivial)
            (fun _ => ⟨hq trivial, False.elim⟩) (by rw [hpc]; simp only [ReadPc.held, setReader]; ring)
  | scheduling =>
      have hcall : (d.readers i).pc ≠ .idle := by rw [hpc]; exact nofun
      rw [hpc] at hq
      simp only [hpc] at hstep
      split at hstep
      · cases hstep
      · cases hstep
        exact h.move i (h.inCall hcall) (fun _ => hq trivial) (fun hint => by cases hint) (by rw [hpc]; rfl)
  | leaving retval =>
      have hcall : (d.readers i).pc ≠ .idle := by rw [hpc]; exact nofun
      simp only [hpc, Option.some.injEq] at hstep
      subst hstep
      exact h.move i (h.inCall hcall) False.elim (fun hint => by cases hint) (by rw [hpc]; rfl)

theorem Inv.rtcInterrupt (h : d.Inv) : d.rtcInterrupt.Inv where
  wake := h.wake.wake _
  queued := by
    intro i hi
    have hq := h.queued i (by simpa [Device.rtcInterrupt] using hi)
    simp [Device.rtcInterrupt, Waiter.wake, hq]
  closed := fun hc i => by simpa [Device.rtcInterrupt] using h.closed hc i
  balance := by
    intro ho
    have hb := h.balance ho
    simp only [Device.rtcInterrupt, Waiter.wake_pc]
    rw [← hb]
    ring

theorem Inv.step (h : d.Inv) {e : DeviceEvent n} (hstep : d.step e = some d') : d'.Inv := by
  cases e with
  | interrupt =>
      simp only [Device.step] at hstep
      split at hstep
      · cases hstep; exact h.rtcInterrupt
      · cases hstep
  | «open» =>
      simp only [Device.step, Option.some.injEq, rtcOpen] at hstep
      subst hstep
      cases ho : d.isOpen with
      | true => exact h
      | false =>
          have hidle := h.closed ho
          exact
            { wake := h.wake.mono fun h0 => absurd rfl h0
              queued := h.queued
              closed := nofun
              balance := fun _ => by simp [hidle, ReadPc.held] }
  | release =>
      simp only [Device.step] at hstep
      split at hstep
      · rename_i hcond
        cases hstep
        exact
          { wake := h.wake.mono fun h0 => absurd rfl h0
            queued := h.queued
            closed := fun _ => hcond.2
            balance := nofun }
      · cases hstep
  | aie on =>
      cases hstep
      exact ⟨h.wake, h.queued, h.closed, h.balance⟩
  | read i count =>
      simp only [Device.step] at hstep
      split at hstep
      · rename_i hcond
        split at hstep
        · cases hstep; exact h
        · cases hstep
          exact h.move i (fun hc => absurd (hcond.1.symm.trans hc) (by decide)) False.elim
            (fun hint => ⟨(h.wake i hint).1, False.elim⟩) (by rw [hcond.2]; rfl)
      · cases hstep
  | run i f => exact h.rtcRead hstep
  | signal i =>
      cases hstep
      exact h.move i (fun hc => h.closed hc i) (h.queued i) (fun hint => by cases hint) rfl

theorem Inv.init (n : Nat) : (Device.init n).Inv where
  wake := by intro i hint; cases hint
  queued := fun _ => False.elim
  closed := fun _ _ => rfl
  balance := nofun

theorem Reached.inv (h : d.Reached) : d.Inv := by
  obtain ⟨es, hes⟩ := h
  exact (always_of_step (fun _ _ _ hd hs => hd.step hs) es _ (.init n)).last hes

/-- Whatever the readers and the interrupt do, and in whatever order, each alarm since the file was
opened is waiting, held by a reader, delivered, or lost to a fault of the reader's buffer. -/
theorem alarms_accounted (n : Nat) (d : Device n) (h : d.Reached) (hopen : d.isOpen = true) :
    d.rtcIrqData + ∑ i, (d.readers i).pc.held + d.delivered + d.faulted = d.fired :=
  h.inv.balance hopen

/-- Two readers: `i` sleeps when an alarm comes, which `j` takes. -/
def twoReaders (i j : Fin n) : List (DeviceEvent n) :=
  let f : Finds := ⟨false, false, false⟩
  [.open, .aie true, .read i 4, .run i f, .run i f, .run i f, .run i f, .interrupt, .read j 4, .run j f,
    .run j f, .run j f]

theorem alarms_accounted_two_readers : ∃ d : Device 2,
    run Device.step (.init 2) (twoReaders 0 1 ++ [.interrupt]) = some d ∧ d.fired = 2 ∧
      (d.readers 1).pc.held = 1 ∧
      d.rtcIrqData + ∑ i, (d.readers i).pc.held + d.delivered + d.faulted = d.fired := by
  obtain ⟨d, hd⟩ := Option.isSome_iff_exists.mp
    (show (run Device.step (.init 2) (twoReaders 0 1 ++ [.interrupt])).isSome = true by decide)
  refine ⟨d, hd, ?_, ?_, alarms_accounted 2 d ⟨_, hd⟩ ?_⟩
  all_goals cases hd; decide

/-- The only place where a call does not go on. -/
theorem rtcRead_eq_none {i : Fin n} {f : Finds} (h : d.rtcRead i f = none) :
    (d.readers i).pc = .idle ∨ (d.readers i).pc = .scheduling ∧ (d.readers i).interruptible = true := by
  unfold Device.rtcRead at h
  cases hpc : (d.readers i).pc with
  | idle => exact .inl rfl
  | entered => simp [hpc] at h
  | queued => simp [hpc] at h
  | checking => simp [hpc] at h
  | took data =>
      simp only [hpc] at h
      split at h
      · split at h <;> cases h
      · split at h
        · cases h
        · split at h <;> cases h
  | scheduling =>
      simp only [hpc] at h
      split at h
      · rename_i hcond
        exact .inr ⟨rfl, (Bool.and_eq_true_iff.mp hcond).1⟩
      · cases h
  | leaving _ => simp [hpc] at h

/-- While an alarm waits, no reader sleeps: each of them can go on, whatever it finds. -/
theorem readers_awake (n : Nat) (d : Device n) (h : d.Reached) (hdata : d.rtcIrqData ≠ 0) (i : Fin n)
    (hcall : (d.readers i).pc ≠ .idle) (f : Finds) : (d.step (.run i f)).isSome = true := by
  cases hstep : d.rtcRead i f with
  | some d' => simp [Device.step, hstep]
  | none =>
      obtain hpc | ⟨hpc, hint⟩ := rtcRead_eq_none hstep
      · exact absurd hpc hcall
      · exact absurd hdata ((h.inv.wake i hint).2 (by rw [hpc]; trivial))

theorem readers_awake_two_readers : ∃ d : Device 2,
    run Device.step (.init 2) (twoReaders 0 1 ++ [.interrupt]) = some d ∧ (d.readers 0).pc = .scheduling ∧
      ∀ f, (d.step (.run 0 f)).isSome = true := by
  obtain ⟨d, hd⟩ := Option.isSome_iff_exists.mp
    (show (run Device.step (.init 2) (twoReaders 0 1 ++ [.interrupt])).isSome = true by decide)
  refine ⟨d, hd, ?_, readers_awake 2 d ⟨_, hd⟩ ?_ 0 ?_⟩
  all_goals cases hd; decide

/-! ## A reader that has been woken -/

/-- A reader that will not sleep any more in this call, or is not in a call. -/
inductive Woken : Reader → Prop where
  | idle {r : Reader} : r.pc = .idle → Woken r
  | leaving {r : Reader} {retval : Int} : r.pc = .leaving retval → Woken r
  | checking {r : Reader} : r.pc = .checking → r.interruptible = false → Woken r
  | took {r : Reader} {data : BitVec 32} : r.pc = .took data → r.interruptible = false → Woken r
  | scheduling {r : Reader} : r.pc = .scheduling → r.interruptible = false → Woken r

/-- Who else does something does not make it sleep. -/
theorem Woken.of_le {r r' : Reader} (h : Woken r) (hpc : r'.pc = r.pc)
    (hint : r'.interruptible = true → r.interruptible = true) :
    Woken r' := by
  have hfalse : r.interruptible = false → r'.interruptible = false := fun h0 => by
    cases h1 : r'.interruptible with
    | false => rfl
    | true => exact absurd (h0.symm.trans (hint h1)) (by decide)
  cases h with
  | idle h => exact .idle (hpc.trans h)
  | leaving h => exact .leaving (hpc.trans h)
  | checking h h0 => exact .checking (hpc.trans h) (hfalse h0)
  | took h h0 => exact .took (hpc.trans h) (hfalse h0)
  | scheduling h h0 => exact .scheduling (hpc.trans h) (hfalse h0)

theorem Woken.rtcRead {i : Fin n} {f : Finds} (h : Woken (d.readers i))
    (hstep : d.rtcRead i f = some d') : Woken (d'.readers i) := by
  unfold Device.rtcRead at hstep
  have hset : ∀ r, (d.setReader i r).readers i = r := fun r => Function.update_self ..
  cases h with
  | idle hpc => simp [hpc] at hstep
  | leaving hpc =>
      simp only [hpc, Option.some.injEq] at hstep
      subst hstep
      exact .idle (by rw [hset]; rfl)
  | checking hpc h0 =>
      simp only [hpc, Option.some.injEq] at hstep
      subst hstep
      exact .took (by rw [hset]) (by rw [hset]; exact h0)
  | took hpc h0 =>
      simp only [hpc] at hstep
      split at hstep
      · split at hstep
        · cases hstep; exact .leaving (by rw [hset])
        · cases hstep; exact .leaving (by rw [hset])
      · split at hstep
        · cases hstep; exact .leaving (by rw [hset])
        · split at hstep
          · cases hstep; exact .leaving (by rw [hset])
          · cases hstep; exact .scheduling (by rw [hset]) (by rw [hset]; exact h0)
  | scheduling hpc h0 =>
      simp only [hpc, h0] at hstep
      cases hstep
      exact .checking (by rw [hset]) (by rw [hset])

/-- The steps of another task. -/
theorem Woken.setReader {i j : Fin n} (h : Woken (d.readers i)) (hne : i ≠ j) (r : Reader) :
    Woken ((d.setReader j r).readers i) := by
  simpa only [Device.setReader, Function.update_of_ne hne] using h

theorem rtcRead_readers_of_ne {i j : Fin n} {f : Finds} (hne : i ≠ j) (hstep : d.rtcRead j f = some d') :
    d'.readers i = d.readers i := by
  have hset : ∀ r, (d.setReader j r).readers i = d.readers i := fun r => Function.update_of_ne hne ..
  unfold Device.rtcRead at hstep
  cases hpc : (d.readers j).pc <;> simp only [hpc] at hstep
  case idle => cases hstep
  case took data =>
    split at hstep
    · split at hstep <;> cases hstep <;> exact hset _
    · split at hstep
      · cases hstep; exact hset _
      · split at hstep <;> cases hstep <;> exact hset _
  case scheduling =>
    split at hstep
    · cases hstep
    · cases hstep; exact hset _
  all_goals cases hstep; exact hset _

theorem Woken.step {i : Fin n} {e : DeviceEvent n} (he : ∀ count, e ≠ .read i count) (h : Woken (d.readers i))
    (hstep : d.step e = some d') : Woken (d'.readers i) := by
  cases e with
  | interrupt =>
      simp only [Device.step] at hstep
      split at hstep
      · cases hstep
        refine h.of_le (Waiter.wake_pc _) fun hint => ?_
        simp only [Device.rtcInterrupt, Waiter.wake] at hint
        split at hint
        · cases hint
        · exact hint
      · cases hstep
  | «open» =>
      simp only [Device.step, Option.some.injEq, rtcOpen] at hstep
      subst hstep
      cases d.isOpen <;> exact h
  | release =>
      simp only [Device.step] at hstep
      split at hstep
      · cases hstep; exact h
      · cases hstep
  | aie on => cases hstep; exact h
  | read j count =>
      have hne : i ≠ j := fun hij => he count (hij ▸ rfl)
      simp only [Device.step] at hstep
      split at hstep
      · split at hstep
        · cases hstep; exact h
        · cases hstep; exact h.setReader hne _
      · cases hstep
  | run j f =>
      rcases eq_or_ne i j with rfl | hne
      · exact h.rtcRead hstep
      · rw [rtcRead_readers_of_ne hne hstep]; exact h
  | signal j =>
      cases hstep
      rcases eq_or_ne i j with rfl | hne
      · exact h.of_le (by simp [Device.setReader]) (by simp [Device.setReader])
      · exact h.setReader hne _

/-- `rtc_read` marks its task as interruptible once, in front of the loop: after any wake-up the call
does not sleep again but polls until it returns, whatever the other tasks and the interrupt do and
whether or not there is an alarm for it. -/
theorem woken_reader_polls (n : Nat) (d : Device n) (i : Fin n) (es : List (DeviceEvent n))
    (hpc : (d.readers i).pc = .scheduling) (hint : (d.readers i).interruptible = false)
    (hes : ∀ e ∈ es, ∀ count, e ≠ .read i count) :
    Always Device.step (fun d' => (d'.readers i).pc ≠ .idle →
      ∀ f, (d'.step (.run i f)).isSome = true) d es := by
  have hall : Always Device.step (fun d' => Woken (d'.readers i)) d es :=
    always_of_along (fun _ _ _ hw he hs => hw.step he hs) es d (.scheduling hpc hint) (along_of_mem hes)
  refine hall.imp fun d' hw hcall f => ?_
  cases hstep : d'.rtcRead i f with
  | some d'' => simp [Device.step, hstep]
  | none =>
      obtain hidle | ⟨hsched, hmark⟩ := rtcRead_eq_none hstep
      · exact absurd hidle hcall
      · cases hw <;> simp_all

theorem woken_reader_polls_two_readers :
    ∃ d : Device 2, run Device.step (.init 2) (twoReaders 0 1) = some d ∧ d.rtcIrqData = 0 ∧
    Always Device.step (fun d' => (d'.readers 0).pc ≠ .idle → ∀ f, (d'.step (.run 0 f)).isSome = true) d
      (List.replicate 6 (.run 0 ⟨false, false, false⟩)) := by
  obtain ⟨d, hd⟩ := Option.isSome_iff_exists.mp
    (show (run Device.step (.init 2) (twoReaders 0 1)).isSome = true by decide)
  refine ⟨d, hd, ?_, woken_reader_polls 2 d 0 _ ?_ ?_ fun e he count => ?_⟩
  · cases hd; decide
  · cases hd; decide
  · cases hd; decide
  · rw [List.eq_of_mem_replicate he]
    exact nofun

end Device

end CameraFw.Rtc
