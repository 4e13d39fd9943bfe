import CameraFw.Base.LinkedQueue
import CameraFw.Isoc.Handler

/-!
# The frame buffers and their links

`pwc_reset_buffers`, `pwc_next_fill_frame` and the two locked sections of `pwc_handle_frame` of
`pwc-if.c`, with the buffers as cells of an array: the lists of full and of empty frames are linked
through the buffers themselves. There is no next state where the code follows a null pointer.
-/

namespace CameraFw.Isoc

open CameraFw.Base

structure Buffers (n : Nat) where
  fbuf : Fin n → Frame
  next : Fin n → Option (Fin n)
  full : Ends (Fin n)
  empty : Ends (Fin n)
  fillFrame : Option (Fin n)
  readFrame : Option (Fin n)

namespace Buffers

variable {n : Nat}

/-- The links after `pwc_reset_buffers`: from each buffer to the one before it. -/
def backwards (i : Fin (n + 1)) : Option (Fin (n + 1)) := if h : i = 0 then none else some (i.pred h).castSucc

/-- The last buffer is taken off the list as the fill frame, and keeps its link. -/
def pwcResetBuffers (s : Buffers (n + 1)) : Buffers (n + 1) where
  fbuf := fun i => { s.fbuf i with filled := 0 }
  next := backwards
  full := ⟨none, none⟩
  empty := ⟨backwards (Fin.last n), some 0⟩
  fillFrame := some (Fin.last n)
  readFrame := none

/-- The fill frame joins the full ones. -/
def appendFill (s : Buffers n) : Option (Ends (Fin n) × (Fin n → Option (Fin n))) :=
  match s.fillFrame with
  | none => some (s.full, s.next)
  | some f => s.full.append s.next f

/-- The answer says whether a full frame was taken for want of an empty one. -/
def pwcNextFillFrame (s : Buffers n) : Option (Bool × Buffers n) := do
  let (full, next) ← s.appendFill
  match s.empty.head with
  | some f =>
      some (false, { s with
        full := full, empty := ⟨next f, s.empty.tail⟩, fillFrame := some f
        next := Function.update next f none })
  | none => do
      let f ← full.head
      some (true, { s with
        full := ⟨next f, full.tail⟩, fillFrame := some f, next := Function.update next f none })

/-- The first locked section. -/
def grab (s : Buffers n) : Buffers n :=
  match s.readFrame, s.full.head with
  | none, some f =>
      { s with readFrame := some f, full := ⟨s.next f, s.full.tail⟩, next := Function.update s.next f none }
  | _, _ => s

/-- The second one. -/
def giveBack (s : Buffers n) : Option (Buffers n) :=
  match s.readFrame with
  | none => some s
  | some f => do
      let (empty, next) ← s.empty.append s.next f
      some { s with empty := empty, next := next, readFrame := none }

end Buffers

/-- What is done to the buffers. The handler writes to the fill frame. -/
inductive BufferOp where
  | write (f : Frame)
  | nextFillFrame
  | grab
  | giveBack

def Buffers.step {n : Nat} (s : Buffers n) : BufferOp → Option (Buffers n)
  | .write f => s.fillFrame.map fun i => { s with fbuf := Function.update s.fbuf i f }
  | .nextFillFrame => s.pwcNextFillFrame.map Prod.snd
  | .grab => some s.grab
  | .giveBack => s.giveBack

/-- The same on the lists of the device. -/
def Dev.op (cfg : Config) (d : Dev) : BufferOp → Dev
  | .write f => { d with fillFrame := some f }
  | .nextFillFrame => pwcNextFillFrame d
  | .grab => d.step cfg .grab
  | .giveBack => d.step cfg .giveBack

/-! ## What has gone through them -/

/-- The frames that have been completed, those that readers have got, and how many were taken for want
of an empty one, as `vframes_dumped` counts them. -/
structure Traced (n : Nat) where
  bufs : Buffers n
  completed : List Frame
  grabbed : List Frame
  dumped : Nat

/-- What an operation adds to them. -/
structure Flow where
  completes : List Frame
  grabs : List Frame
  dumps : Nat

def Buffers.flow {n : Nat} (s : Buffers n) : BufferOp → Flow
  | .nextFillFrame =>
      ⟨(s.fillFrame.map s.fbuf).toList, [], if s.pwcNextFillFrame.map Prod.fst = some true then 1 else 0⟩
  | .grab => ⟨[], if s.readFrame = none then (s.full.head.map s.fbuf).toList else [], 0⟩
  | _ => ⟨[], [], 0⟩

def Dev.flow (d : Dev) : BufferOp → Flow
  | .nextFillFrame => ⟨d.fillFrame.toList, [], if d.emptyFrames.isEmpty then 1 else 0⟩
  | .grab => ⟨[], if d.readFrame.isNone then d.fullFrames.head?.toList else [], 0⟩
  | _ => ⟨[], [], 0⟩

/-- The frames that the operations complete. -/
def completedBy (cfg : Config) : Dev → List BufferOp → List Frame
  | _, [] => []
  | d, op :: ops => (d.flow op).completes ++ completedBy cfg (d.op cfg op) ops

def Traced.step {n : Nat} (t : Traced n) (op : BufferOp) : Option (Traced n) :=
  (t.bufs.step op).map fun b =>
    ⟨b, t.completed ++ (t.bufs.flow op).completes, t.grabbed ++ (t.bufs.flow op).grabs,
      t.dumped + (t.bufs.flow op).dumps⟩

def Traced.opened {n : Nat} (s : Buffers (n + 1)) : Traced (n + 1) := ⟨s.pwcResetBuffers, [], [], 0⟩

/-! ## What is expected of readers -/

def BufferOp.isGrab : BufferOp → Bool
  | .grab => true
  | _ => false

/-- The frames that the operation completes. -/
def BufferOp.completions : BufferOp → Nat
  | .nextFillFrame => 1
  | _ => 0

def completions (ops : List BufferOp) : Nat := (ops.map BufferOp.completions).sum

/-- No reader comes between the first completed frame and the second one; `k` of them have been completed. -/
def Undisturbed : Nat → List BufferOp → Prop
  | _, [] => True
  | k, op :: ops => (k = 1 → op.isGrab = false) ∧ Undisturbed (k + op.completions) ops

instance Undisturbed.decidable : ∀ k ops, Decidable (Undisturbed k ops)
  | _, [] => isTrue trivial
  | k, op :: ops =>
      have := Undisturbed.decidable (k + op.completions) ops
      inferInstanceAs (Decidable ((k = 1 → op.isGrab = false) ∧ _))

end CameraFw.Isoc
