import CameraFw.Pwc.Lemmas.Ioctl
import CameraFw.Pwc.Lemmas.Read

/-!
# The semaphore of the ioctls, and what reads deliver

Runs keep the semaphore, or deliver every frame, exactly as long as each of their calls meets the
condition that `Released` and `Fits` put on it.
-/

namespace CameraFw.Pwc

open CameraFw.Base

/-! ## The semaphore -/

/-- A call gives the semaphore back exactly if its command is known, its copies and its helper succeed
and its value is in range; and the semaphore can be had throughout exactly as long as all calls of the
run are such. -/
theorem semaphore_acquirable_iff (d : Dev) (es : List Ev) :
    (∀ d' c, (pwcIoctl d' c).ups = 1 ↔ Released d' c) ∧
      (Always step Acquirable (Sys.init d) es ↔ Along step ReleasedBy (Sys.init d) es) := by
  refine ⟨pwcIoctl_ups_iff, ?_⟩
  have hfree : Acquirable (Sys.init d) := acquirable_iff.mpr fun _ => Nat.one_ne_zero
  exact always_iff_along (fun _ _ _ => exclusive_step) (fun _ _ _ h _ hs => acquirable_step h hs)
    (fun _ _ => releasedBy_of_none) es (Sys.init d) (Nat.le_refl 1) hfree

def idle : Dev := ⟨3, 4, 10, true, 0, 60⟩

def highQuality : Call := ⟨.VIDIOCPWCSCQUAL, 0, ⟨some 16, true, true, 0⟩⟩

/-- A quality of 16 is refused with the semaphore held: afterwards nobody is inside, and the iris thread
and the next call wait for ever. -/
theorem semaphore_lost :
    pwcIoctl idle highQuality = ⟨some (-EINVAL), 0, idle⟩ ∧
      run step (Sys.init idle) [.down (.ioctl highQuality), .out (.ioctl highQuality)] = some ⟨0, [], idle⟩ ∧
      step ⟨0, [], idle⟩ (.down .iris) = none ∧ step ⟨0, [], idle⟩ (.down (.ioctl highQuality)) = none := by
  decide +kernel

/-! ## Reads -/

/-- Reads take completed frames only and deliver each of them, within the count and with the right
result, exactly as long as no read has the frame that is being filled and each frame fits its read. The
first is so if no call comes between the first completed frame and the second one after the buffers were
reset. -/
theorem videoRead_delivers_iff (n : Nat) (q : QTables) (bufs : Isoc.Buffers (n + 2))
    (images : Fin 2 → List UInt8) (qTableIndex : BitVec 8) (jpgHd : Header) (as : List Act) :
    (Always (Session.step q) Delivers (Session.init bufs images qTableIndex jpgHd) as ↔
      Always (Session.step q) Apart (Session.init bufs images qTableIndex jpgHd) as ∧
        Along (Session.step q) ReadFits (Session.init bufs images qTableIndex jpgHd) as) ∧
      (Calm 0 as → Always (Session.step q) Apart (Session.init bufs images qTableIndex jpgHd) as) := by
  have hsound := sound_init bufs images qTableIndex jpgHd
  have hapart : Apart (Session.init bufs images qTableIndex jpgHd) := fun r i hi => by cases hi
  have hinit : Delivers (Session.init bufs images qTableIndex jpgHd) :=
    (delivers_iff hsound).mpr ⟨hapart, fun p hp => absurd hp (Option.not_mem_none p), rfl⟩
  exact ⟨always_iff_always_along (fun _ _ _ => sound_step) (fun _ _ _ => delivers_step)
      (fun _ _ => readFits_of_none) hsound hinit hapart,
    apart_of_calm as hsound (Isoc.Buffers.phase_reset bufs 0 0)⟩

/-- A frame as the camera sends it, with `k` bytes between the two markers. -/
def sampleFrame (k : Nat) : Isoc.Frame :=
  ⟨fun i => if i = 0 ∨ i = k + 2 then 0xff else if i = 1 then 0xd8 else if i = k + 3 then 0xd9 else 0, k + 4⟩

def sampleSession : Session 3 :=
  .init ⟨fun _ => ⟨fun _ => 0, 0⟩, fun _ => none, ⟨none, none⟩, ⟨none, none⟩, none, none⟩ (fun _ => []) 0
    ⟨List.replicate jpgHdSize 0, List.length_replicate⟩

def wholeRead : Req := ⟨4096, 4096, true, false⟩

/-- Two frames come before the first read, and a third one during it. -/
def calmReads : List Act :=
  [.write (sampleFrame 96) (by decide), .complete, .write (sampleFrame 20) (by decide), .complete,
    .enter (.read wholeRead), .write (sampleFrame 50) (by decide), .complete, .leave,
      .enter (.read wholeRead), .leave]

theorem videoRead_delivers_calm : Calm 0 calmReads ∧
    Along (Session.step fun _ _ => 0) ReadFits sampleSession calmReads ∧
    Always (Session.step fun _ _ => 0) Delivers sampleSession calmReads := by
  have hcalm : Calm 0 calmReads := by decide
  have hfits : Along (Session.step fun _ _ => 0) ReadFits sampleSession calmReads := by decide +kernel
  obtain ⟨hiff, hset⟩ := videoRead_delivers_iff 1 (fun _ _ => 0) _ _ _ _ calmReads
  exact ⟨hcalm, hfits, hiff.mpr ⟨hset hcalm, hfits⟩⟩

/-- The first frame, of 542 bytes, is refused although there is room for it, and is gone. Of a frame of
100 bytes a caller that asked for 10 bytes gets 625. And the second read after the first completed frame
is given the one that is being filled, of which 100 bytes are there. -/
theorem videoRead_loses_frame :
    ((run (Session.step fun _ _ => 0) sampleSession
        [.write (sampleFrame 538) (by decide), .complete, .enter (.read wholeRead), .leave]).map
          fun s => (s.last.map Prod.snd, s.delivered, s.call)) = some (some ⟨some (-EFAULT), []⟩, [], none) ∧
      ((run (Session.step fun _ _ => 0) sampleSession
        [.write (sampleFrame 96) (by decide), .complete, .enter (.read ⟨10, 4096, true, false⟩), .leave]).map
          fun s => s.last.map fun p => (p.2.ret, p.2.copied.length)) = some (some (some 625, 625)) ∧
      ((run (Session.step fun _ _ => 0) sampleSession
        [.write (sampleFrame 96) (by decide), .complete, .enter (.read wholeRead), .leave,
          .write ⟨(sampleFrame 1000).data, 100⟩ (by decide), .enter (.read wholeRead)]).map
          fun s => (s.reading.map fun p => (p.2, s.complete p.2), s.cam.bufs.fillFrame)) =
            some (some (1, false), some 1) := by
  decide +kernel

end CameraFw.Pwc
