import CameraFw.Base.Loop

/-!
# Collecting frames from the isochronous pipe

`pwc_isoc_handler` and `pwc_next_fill_frame` of `pwc-if.c`. Each packet that comes in is copied behind
what the fill frame holds, without its first byte. A packet whose data begins with the start marker ends
the frame so far. Where the next byte goes is kept three times: in `fillptr`, in the `filled` of the
frame and in the global `packet_buffer_size`. The counters for statistics and the wake-up of readers are
left out.
-/

namespace CameraFw.Isoc

open CameraFw.Base

/-! ## Frames and packets -/

def EINPROGRESS : Int := 115

/-- `frame_size` is an `int`. -/
structure Config where
  type : Int
  frameSize : Nat
  int : frameSize < 2 ^ 31

/-- A buffer, with what lies behind it in the memory. -/
structure Frame where
  data : Nat → UInt8
  filled : Nat

def Frame.bytes (f : Frame) : List UInt8 := (List.range f.filled).map f.data

/-- `status` and `actual_length` of a descriptor, and the bytes from `iso_buf` on: behind the length
stands what was there before. -/
structure Packet where
  status : Int
  actualLength : BitVec 32
  buf : Nat → UInt8

structure Urb where
  status : Int
  packets : List Packet

/-- `flen`, for the packets where it is not negative. -/
def Packet.flen (p : Packet) : Nat := p.actualLength.toInt.toNat

def Packet.isHeader (p : Packet) : Bool := p.buf 1 = 0xff ∧ p.buf 2 = 0xd8

/-- The packets that are looked at. -/
def Packet.valid (cfg : Config) (p : Packet) : Bool := p.status = 0 ∧ 0 < p.flen ∧ cfg.type = 800

/-- The search for the start marker, with `n` places left. -/
def Packet.search (p : Packet) : Nat → Nat → Nat
  | 0, h => h
  | n + 1, h => if p.buf h = 0xff ∧ p.buf (h + 1) = 0xd8 then h else p.search n (h + 1)

/-- `for (HeaderOffset = 1; HeaderOffset <= flen - 2; HeaderOffset++)` -/
def Packet.headerOffset (p : Packet) : Nat := p.search (p.flen - 2) 1

/-! ## The device -/

/-- The device with the globals of the file and the static `SkipCount`. -/
structure Dev where
  packetBufferSize : Nat
  get1stHeader : Bool
  skipCount : Nat
  preframesize : Nat
  fillFrame : Option Frame
  emptyFrames : List Frame
  fullFrames : List Frame
  readFrame : Option Frame

def pwcNextFillFrame (d : Dev) : Dev :=
  let full := d.fullFrames ++ d.fillFrame.toList
  match d.emptyFrames with
  | f :: rest => { d with fillFrame := some f, emptyFrames := rest, fullFrames := full }
  | [] => { d with fillFrame := full.head?, fullFrames := full.tail }

/-- `pwc_reset_buffers` and the end of `pwc_video_open`, with any contents of the buffers. -/
def opened (skipCount preframesize : Nat) (bufs : List (Nat → UInt8)) : Dev where
  packetBufferSize := 0
  get1stHeader := false
  skipCount := skipCount
  preframesize := preframesize
  fillFrame := (bufs.map fun b => (⟨b, 0⟩ : Frame)).head?
  emptyFrames := (bufs.map fun b => (⟨b, 0⟩ : Frame)).tail
  fullFrames := []
  readFrame := none

/-! ## One packet -/

/-- The locals `fbuf` and `fillptr`, the latter counted from `fbuf->data`. -/
structure Work where
  dev : Dev
  fbuf : Frame
  fillptr : Nat

/-- All three places go back to the beginning. -/
def Work.restart (w : Work) : Work :=
  { dev := { w.dev with packetBufferSize := 0 }, fbuf := { w.fbuf with filled := 0 }, fillptr := 0 }

/-- The size that the camera gives for the frame that ends here. -/
def noteSize (p : Packet) (d : Dev) : Dev :=
  if 10 < p.flen then
    let size := (p.buf 10).toNat * 256 * 256 + (p.buf 9).toNat * 256 + (p.buf 8).toNat
    let d := { d with preframesize := size }
    if d.packetBufferSize ≠ size then { d with skipCount := if size < 6 then 6 else 3 } else d
  else { d with packetBufferSize := 0 }

def skipFrame (p : Packet) (d : Dev) : Dev :=
  if d.skipCount ≠ 0 ∧ 10 ≤ p.flen then { d with skipCount := d.skipCount - 1, packetBufferSize := 0 } else d

/-- A frame with both markers and the announced size goes to the full list, any other is thrown away. -/
def endFrame (w : Work) : Work :=
  let n := w.dev.packetBufferSize
  let data := w.fbuf.data
  if 2 ≤ n ∧ data 0 = 0xff ∧ data 1 = 0xd8 ∧ data (n - 2) = 0xff ∧ data (n - 1) = 0xd9 ∧
    n = w.dev.preframesize then
    let d := pwcNextFillFrame { w.dev with fillFrame := some w.fbuf }
    Work.restart { w with dev := d, fbuf := d.fillFrame.getD w.fbuf }
  else w.restart

def takeHeader (p : Packet) (w : Work) : Work :=
  let w := { w with dev := skipFrame p (noteSize p w.dev) }
  let w := if p.headerOffset ≠ p.flen - 1 ∧ w.dev.get1stHeader = true then endFrame w else w
  { w with dev := { w.dev with get1stHeader := true } }

/-- Where the packet is copied from. -/
def Packet.first (p : Packet) : Nat := if p.isHeader then p.headerOffset else 1

/-- The comparison is unsigned. -/
def tooLong (cfg : Config) (p : Packet) (w : Work) : Bool :=
  cfg.frameSize < (w.dev.packetBufferSize + p.flen) % 2 ^ 32

def copyData (p : Packet) (w : Work) : Work :=
  let n := p.flen - p.first
  { dev := { w.dev with packetBufferSize := (w.dev.packetBufferSize + n) % 2 ^ 32 }
    fbuf := {
      data := fun k => if w.fillptr ≤ k ∧ k < w.fillptr + n then p.buf (p.first + (k - w.fillptr))
        else w.fbuf.data k
      filled := w.fbuf.filled + n }
    fillptr := w.fillptr + n }

def takeData (cfg : Config) (p : Packet) (w : Work) : Work :=
  if w.dev.get1stHeader = false then w
  else if tooLong cfg p w then
    let w := w.restart
    { w with dev := { w.dev with get1stHeader := false } }
  else copyData p w

/-- What a packet finds when its data is to be taken. -/
def beforeData (p : Packet) (w : Work) : Work := if p.isHeader then takeHeader p w else w

def takePacket (cfg : Config) (w : Work) (p : Packet) : Work :=
  if p.valid cfg then takeData cfg p (beforeData p w) else w

/-! ## The handler and its surroundings -/

def begin (d : Dev) (f : Frame) : Work := ⟨d, f, f.filled⟩

def Urb.ok (u : Urb) : Bool := u.status = 0 ∨ u.status = -EINPROGRESS

def pwcIsocHandler (cfg : Config) (d : Dev) (u : Urb) : Dev :=
  if u.ok = false then d
  else
    match d.fillFrame with
    | none => d
    | some f =>
        let w := u.packets.foldl (takePacket cfg) (begin d f)
        { w.dev with fillFrame := some w.fbuf }

/-- Completions, and the two locked sections of `pwc_handle_frame` that a reader goes through in between. -/
inductive Event where
  | completion (u : Urb)
  | grab
  | giveBack

def Dev.step (cfg : Config) (d : Dev) : Event → Dev
  | .completion u => pwcIsocHandler cfg d u
  | .grab =>
      match d.readFrame, d.fullFrames with
      | none, f :: rest => { d with readFrame := some f, fullFrames := rest }
      | _, _ => d
  | .giveBack => { d with emptyFrames := d.emptyFrames ++ d.readFrame.toList, readFrame := none }

/-! ## What the copies must keep to -/

/-- If the packet is copied, the three places agree and the bytes stay inside the buffer. -/
def CopiesInside (cfg : Config) (w : Work) (p : Packet) : Prop :=
  p.valid cfg = true → (beforeData p w).dev.get1stHeader = true → tooLong cfg p (beforeData p w) = false →
    (beforeData p w).dev.packetBufferSize = (beforeData p w).fbuf.filled ∧
      (beforeData p w).fillptr + (p.flen - p.first) ≤ cfg.frameSize

/-- A packet of two bytes whose start marker is completed by an old byte, while a frame is being filled. -/
def StaleMarker (cfg : Config) (w : Work) (p : Packet) : Prop :=
  p.valid cfg = true ∧ p.isHeader = true ∧ p.flen = 2 ∧ w.dev.get1stHeader = true ∧ w.fbuf.filled ≠ 0

/-- `G` for every packet that the handler comes to. -/
def EachPacket (cfg : Config) (G : Work → Packet → Prop) (d : Dev) : Event → Prop
  | .completion u =>
      u.ok = true → ∀ f, d.fillFrame = some f →
        Along (fun w p => some (takePacket cfg w p)) G (begin d f) u.packets
  | _ => True

/-- `G` for every packet of a run. -/
def AllPackets (cfg : Config) (G : Work → Packet → Prop) (d : Dev) (es : List Event) : Prop :=
  Along (fun d e => some (Dev.step cfg d e)) (EachPacket cfg G) d es

end CameraFw.Isoc
