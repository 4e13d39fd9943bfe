import Mathlib
import CameraFw.Base.Loop
import CameraFw.Base.WaitQueue
import CameraFw.Rtc.Driver

/-!
# The alarms of the clock and their readers

`rtc_interrupt`, `rtc_read`, `rtc_open`, `rtc_release` and the ioctls for the interrupt of `rtc.c`, with
`enable_irq` and `disable_irq`. Any number of tasks read from the file; an instruction of one of them or
a locked section is one step, and so is an interrupt. What the handler writes to the registers of the
alarms is left out.
-/

namespace CameraFw.Rtc

open CameraFw.Base

def EBUSY : Int := 16
def EAGAIN : Int := 11
def ERESTARTSYS : Int := 512

/-- Where a task is in `rtc_read`. -/
inductive ReadPc where
  | idle
  -- in front of `add_wait_queue`
  | entered
  | queued
  -- at the head of the loop
  | checking
  -- behind the locked section
  | took (data : BitVec 32)
  | scheduling
  -- at `out`
  | leaving (retval : Int)
  deriving DecidableEq, Repr

abbrev Reader := Waiter ReadPc

def Reader.new : Reader := ⟨.idle, false, false⟩

/-- What a task finds: `signal_pending`, `O_NONBLOCK`, and whether `put_user` faults. -/
structure Finds where
  signal : Bool
  nonblock : Bool
  fault : Bool
  deriving DecidableEq, Repr

/-- The static variables, the depth to which the interrupt is disabled and the tasks. What has happened
since the file was opened is counted: the interrupts, the alarms that readers got, and those that a
fault took away. -/
structure Device (n : Nat) where
  rtcIrqData : BitVec 32
  isOpen : Bool
  disableDepth : Nat
  readers : Fin n → Reader
  fired : BitVec 32
  delivered : BitVec 32
  faulted : BitVec 32

def Device.init (n : Nat) : Device n := ⟨0, false, 1, fun _ => .new, 0, 0, 0⟩

namespace Device

variable {n : Nat}

def rtcInterrupt (d : Device n) : Device n :=
  { d with
    rtcIrqData := d.rtcIrqData + 1
    fired := d.fired + 1
    readers := fun i => (d.readers i).wake }

def rtcOpen (d : Device n) : Int × Device n :=
  if d.isOpen then (-EBUSY, d)
  else (0, { d with isOpen := true, rtcIrqData := 0, fired := 0, delivered := 0, faulted := 0 })

def rtcRelease (d : Device n) : Device n := { d with rtcIrqData := 0, isOpen := false }

def setReader (d : Device n) (i : Fin n) (r : Reader) : Device n :=
  { d with readers := Function.update d.readers i r }

/-- The next instruction of `rtc_read`. -/
def rtcRead (d : Device n) (i : Fin n) (f : Finds) : Option (Device n) :=
  let r := d.readers i
  match r.pc with
  | .idle => none
  | .entered => some (d.setReader i { r with pc := .queued, queued := true })
  | .queued => some (d.setReader i { r with pc := .checking, interruptible := true })
  | .checking => some { d.setReader i { r with pc := .took d.rtcIrqData } with rtcIrqData := 0 }
  | .took data =>
      if data ≠ 0 then
        if f.fault then
          some { d.setReader i { r with pc := .leaving (-EFAULT) } with faulted := d.faulted + data }
        else some { d.setReader i { r with pc := .leaving 4 } with delivered := d.delivered + data }
      else if f.nonblock then some (d.setReader i { r with pc := .leaving (-EAGAIN) })
      else if f.signal then some (d.setReader i { r with pc := .leaving (-ERESTARTSYS) })
      else some (d.setReader i { r with pc := .scheduling })
  -- the scheduler keeps a task with the mark, unless there is a signal for it
  | .scheduling =>
      if r.interruptible && !f.signal then none
      else some (d.setReader i { r with pc := .checking, interruptible := false })
  | .leaving _ => some (d.setReader i .new)

end Device

/-- What happens. A task whose buffer is too small gets -EINVAL at once. -/
inductive DeviceEvent (n : Nat) where
  | interrupt
  | open
  | release
  | aie (on : Bool)
  | read (i : Fin n) (count : Nat)
  | run (i : Fin n) (f : Finds)
  -- a signal is sent to a task
  | signal (i : Fin n)

def Device.step {n : Nat} (d : Device n) : DeviceEvent n → Option (Device n)
  | .interrupt => if d.disableDepth = 0 then some d.rtcInterrupt else none
  | .open => some d.rtcOpen.2
  -- the last close, with no call in the file
  | .release => if d.isOpen = true ∧ ∀ i, (d.readers i).pc = .idle then some d.rtcRelease else none
  | .aie on => some { d with disableDepth := if on then d.disableDepth - 1 else d.disableDepth + 1 }
  | .read i count =>
      if d.isOpen = true ∧ (d.readers i).pc = .idle then
        if count < 4 then some d else some (d.setReader i { d.readers i with pc := .entered })
      else none
  | .run i f => d.rtcRead i f
  | .signal i => some (d.setReader i { d.readers i with interruptible := false })

/-- The states that the device comes to. -/
def Device.Reached {n : Nat} (d : Device n) : Prop := ∃ es, run Device.step (Device.init n) es = some d

end CameraFw.Rtc
