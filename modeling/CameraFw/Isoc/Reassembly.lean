import CameraFw.Isoc.Buffers
import CameraFw.Isoc.Theorems

/-!
# The pictures in the packets

What the packets of the camera contain, in terms of byte lists: a picture is what the packets from one
start marker to the next carry, if the size that comes with the next marker is its length, no pictures
are to be skipped and it begins and ends as a JPEG file does. The handler is then a list of operations
on the buffers.
-/

namespace CameraFw.Isoc

open CameraFw.Base

/-! ## Byte lists -/

/-- The first byte of a packet belongs to the protocol. -/
def Packet.payload (p : Packet) : List UInt8 := (List.range (p.flen - 1)).map fun k => p.buf (1 + k)

/-- The length that is given for the picture so far. -/
def Packet.size (p : Packet) : Nat := (p.buf 10).toNat * 256 * 256 + (p.buf 9).toNat * 256 + (p.buf 8).toNat

def IsPicture (bs : List UInt8) : Prop :=
  2 ≤ bs.length ∧ bs.take 2 = [0xff, 0xd8] ∧ bs.drop (bs.length - 2) = [0xff, 0xd9]

instance (bs : List UInt8) : Decidable (IsPicture bs) := inferInstanceAs (Decidable (_ ∧ _))

/-! ## From packets to pictures -/

/-- The bytes since the last start marker, if there was one, and how many pictures are to be skipped. -/
structure Asm where
  collected : Option (List UInt8)
  skip : Nat
  deriving DecidableEq, Repr

/-- A wrong length makes some more pictures be skipped. -/
def Asm.skips (a : Asm) (p : Packet) : Nat :=
  if 10 < p.flen ∧ (a.collected.getD []).length ≠ p.size then if p.size < 6 then 6 else 3 else a.skip

/-- The picture that ends with a start marker. -/
def Asm.ends (a : Asm) (p : Packet) : List (List UInt8) :=
  match a.collected with
  | none => []
  | some bs => if 10 < p.flen ∧ a.skips p = 0 ∧ IsPicture bs then [bs] else []

def Asm.header (a : Asm) (p : Packet) : Asm :=
  ⟨some [], if a.skips p ≠ 0 ∧ 10 ≤ p.flen then a.skips p - 1 else a.skips p⟩

/-- What does not fit is thrown away, and a start marker is waited for. -/
def Asm.data (cfg : Config) (a : Asm) (p : Packet) : Asm :=
  match a.collected with
  | none => a
  | some bs => if cfg.frameSize < bs.length + p.flen then ⟨none, a.skip⟩ else ⟨some (bs ++ p.payload), a.skip⟩

def Asm.packet (cfg : Config) (a : Asm) (p : Packet) : Asm :=
  if p.valid cfg then if p.isHeader then (a.header p).data cfg p else a.data cfg p else a

def Asm.emits (cfg : Config) (a : Asm) (p : Packet) : List (List UInt8) :=
  if p.valid cfg ∧ p.isHeader then a.ends p else []

def Asm.pictures (cfg : Config) : Asm → List Packet → List (List UInt8)
  | _, [] => []
  | a, p :: ps => a.emits cfg p ++ (a.packet cfg p).pictures cfg ps

/-! ## The handler on the buffers -/

/-- The condition in `endFrame`. -/
def Work.complete (w : Work) : Bool :=
  2 ≤ w.dev.packetBufferSize ∧ w.fbuf.data 0 = 0xff ∧ w.fbuf.data 1 = 0xd8 ∧
    w.fbuf.data (w.dev.packetBufferSize - 2) = 0xff ∧
    w.fbuf.data (w.dev.packetBufferSize - 1) = 0xd9 ∧ w.dev.packetBufferSize = w.dev.preframesize

/-- The packet calls `pwc_next_fill_frame`. -/
def completes (cfg : Config) (w : Work) (p : Packet) : Bool :=
  p.valid cfg ∧ p.isHeader ∧ p.headerOffset ≠ p.flen - 1 ∧ w.dev.get1stHeader = true ∧
    Work.complete { w with dev := skipFrame p (noteSize p w.dev) }

def packetOps (cfg : Config) (w : Work) (p : Packet) : List BufferOp :=
  if completes cfg w p then [.nextFillFrame, .write (takePacket cfg w p).fbuf]
  else [.write (takePacket cfg w p).fbuf]

def packetsOps (cfg : Config) : Work → List Packet → List BufferOp
  | _, [] => []
  | w, p :: ps => packetOps cfg w p ++ packetsOps cfg (takePacket cfg w p) ps

def eventOps (cfg : Config) (d : Dev) : Event → List BufferOp
  | .completion u =>
      if u.ok then
        match d.fillFrame with
        | none => []
        | some f => packetsOps cfg (begin d f) u.packets
      else []
  | .grab => [.grab]
  | .giveBack => [.giveBack]

def eventsOps (cfg : Config) : Dev → List Event → List BufferOp
  | _, [] => []
  | d, e :: es => eventOps cfg d e ++ eventsOps cfg (d.step cfg e) es

/-- The packets that the handler sees. -/
def packetsOf : List Event → List Packet
  | [] => []
  | .completion u :: es => (if u.ok then u.packets else []) ++ packetsOf es
  | _ :: es => packetsOf es

end CameraFw.Isoc
