import CameraFw.Base.Bytes
import CameraFw.Base.Loop
import CameraFw.Isoc.Buffers
import CameraFw.Pwc.Ioctl

/-!
# Reading pictures from the TOPRO camera

`pwc_video_read` and `pwc_handle_frame` of `pwc-if.c` and `pwc_decompress` of `pwc-uncompress.c` for a
camera of type 800, with the calls around them that change what they read. The frames are in the linked
buffers that the handler fills; it may come in while a call decompresses its frame. The control of
exposure and white balance and the motion messages are left out.
-/

namespace CameraFw.Pwc

open CameraFw.Base

def EAGAIN : Int := 11
def EPIPE : Int := 32

def TP6830_HEADER_SIZE : Nat := 12

/-- `sizeof(jpg_hd)`. -/
def jpgHdSize : Nat := 537

/-- `pdev->frame_size` of this camera; `pwc_isoc_handler` drops what gets longer. -/
def frameSize : Nat := 163840

structure Header where
  bytes : List UInt8
  size : bytes.length = jpgHdSize
  deriving DecidableEq, Repr

/-- The rows of `InitQuantizationTable` that an index of four bits reaches. -/
abbrev QTables := Fin 16 → Fin 128 → UInt8

def Header.overwrite (h : Header) (off : Nat) (bs : List UInt8) (hfit : off + bs.length ≤ jpgHdSize) :
    Header :=
  ⟨store h.bytes off bs, by rw [length_store (by rw [h.size]; exact hfit), h.size]⟩

def jpegUpdateDHqt (q : QTables) (select : Fin 16) (h : Header) : Header :=
  (h.overwrite 371 (List.ofFn fun i : Fin 64 => q select (i.castLE (by decide)))
    (by rw [List.length_ofFn]; decide)).overwrite 440 (List.ofFn fun i : Fin 64 => q select (i.natAdd 64))
    (by rw [List.length_ofFn]; decide)

/-- The sizes for which `topro_set_parameter` writes height and width into the header. -/
inductive Size where
  | vga | sif | qcif
  deriving DecidableEq, Repr

def Size.bytes : Size → List UInt8
  | .vga => [0x01, 0xe0, 0x02, 0x80]
  | .sif => [0x00, 0xf0, 0x01, 0x40]
  | .qcif => [0x00, 0x90, 0x00, 0xb0]

def Header.setSize (h : Header) (z : Size) : Header :=
  h.overwrite 509 z.bytes (by cases z <;> decide)

/-- The device with the globals `packet_buffer_tmp` and `jpg_hd` and the static `real_len`, and with `n`
frame buffers. -/
structure Cam (n : Nat) where
  bufs : Isoc.Buffers n
  images : Fin 2 → List UInt8
  fillImage : Fin 2
  imageReadPos : Nat
  qTableIndex : BitVec 8
  jpgHd : Header
  packetBufferTmp : BitVec 32
  realLen : BitVec 32

section Device

variable {n : Nat}

def pwcResetBuffers (c : Cam (n + 1)) : Cam (n + 1) :=
  { c with bufs := c.bufs.pwcResetBuffers, imageReadPos := 0, fillImage := 0 }

def qtIndex (f : Isoc.Frame) : Fin 16 := Fin.ofNat 16 (f.data 6).toNat

def updateQTable (q : QTables) (c : Cam n) (f : Isoc.Frame) : Cam n :=
  if f.data 0 = 0xff ∧ f.data 1 = 0xd8 then
    if c.qTableIndex ≠ BitVec.ofNat 8 (qtIndex f) then
      { c with qTableIndex := BitVec.ofNat 8 (qtIndex f), jpgHd := jpegUpdateDHqt q (qtIndex f) c.jpgHd }
    else c
  else c

/-- The type 800 branch of `pwc_decompress`; `none` where the second `memcpy` gets a negative length. -/
def pwcDecompress (q : QTables) (image : Bool) (c : Cam n) (f : Isoc.Frame) : Option (Int × Cam n) :=
  if image = false then some (-EFAULT, c)
  else
    let c := updateQTable q c f
    if f.filled < TP6830_HEADER_SIZE then none
    else
      let bytes := c.jpgHd.bytes ++ f.bytes.drop TP6830_HEADER_SIZE
      some (0, { c with
        images := Function.update c.images c.fillImage (store (c.images c.fillImage) 0 bytes)
        packetBufferTmp := BitVec.ofNat 32 (f.filled - TP6830_HEADER_SIZE) })

/-- The first locked section of `pwc_handle_frame`. No other call is there, so that `read_frame` is free. -/
def handleFrameGrab (c : Cam n) : Cam n := { c with bufs := c.bufs.grab }

/-- The rest of it. -/
def handleFrameRest (q : QTables) (image : Bool) (c : Cam n) : Option (Int × Cam n) :=
  match c.bufs.readFrame with
  | none => some (0, c)
  | some i => do
      let (ret, c) ← pwcDecompress q image c (c.bufs.fbuf i)
      -- whatever the result is, the frame goes to the empty list
      let bufs ← c.bufs.giveBack
      some (ret, { c with bufs := bufs })

/-- A read: the count asked for, how many bytes can be stored from `buf` on, and whether there is an
image buffer. -/
structure Req where
  count : BitVec 32
  room : Nat
  image : Bool
  unplugged : Bool
  deriving DecidableEq, Repr

/-- What the caller gets: the result, `none` if the call does not come back, and the bytes stored. -/
structure Got where
  ret : Option Int
  copied : List UInt8
  deriving DecidableEq, Repr

/-- The second half of `pwc_video_read`. The count it is called with does not matter: it is set again here. -/
def copyOut (c : Cam n) (r : Req) : Got × Cam n :=
  if c.packetBufferTmp.toInt ≤ 0 then (⟨some (-EFAULT), []⟩, c)
  else if c.realLen + 530 ≠ c.packetBufferTmp then
    let count := c.packetBufferTmp + 537
    let c := { c with realLen := c.packetBufferTmp }
    let copied := (c.images c.fillImage).take (min count.toNat r.room)
    if r.room < count.toNat then (⟨some (-EFAULT), copied⟩, c)
    else (⟨some count.toInt, copied⟩, { c with imageReadPos := 0, fillImage := c.fillImage + 1 })
  else (⟨some (-EFAULT), []⟩, c)

/-- `pwc_video_read` up to the decompression, where it is if it has not returned before. -/
def videoReadEnter (c : Cam n) (r : Req) : (Got × Cam n) ⊕ Cam n :=
  if r.unplugged then .inl (⟨some (-EPIPE), []⟩, c)
  else if c.imageReadPos = 0 then
    if c.bufs.full.head = none then .inl (⟨some (-EAGAIN), []⟩, c) else .inr (handleFrameGrab c)
  else .inl (copyOut c r)

/-- `pwc_video_read` from there on. -/
def videoReadLeave (q : QTables) (c : Cam n) (r : Req) : Option (Got × Cam n) :=
  (handleFrameRest q r.image c).map fun p => if p.1 ≠ 0 then (⟨some (-EFAULT), []⟩, p.2) else copyOut p.2 r

end Device

/-! ## Whole sessions -/

/-- The two calls that take a frame. `VIDIOCSYNC` decompresses it into a mapped buffer. -/
inductive Entry where
  | read (r : Req)
  | sync (mbuf : Fin 2) (image : Bool)
  deriving DecidableEq, Repr

/-- The handler writes to the fill frame and completes it, the process calls the driver. One process has
the device open. -/
inductive Act where
  | write (f : Isoc.Frame) (fits : f.filled ≤ frameSize)
  | complete
  | enter (e : Entry)
  | leave
  -- `pwc_try_video_mode`
  | reset
  -- the device is closed and opened again, which leaves `real_len` as it was
  | reopen
  | resize (z : Size)

/-- The camera and the call that the process is in; and, for the record, which buffers hold a completed
frame, the pictures of the frames that reads have taken, the bytes that the callers got, and the last
read. -/
structure Session (n : Nat) where
  cam : Cam n
  call : Option Entry
  complete : Fin n → Bool
  expected : List UInt8
  delivered : List UInt8
  last : Option (Req × Got)

section Sessions

variable {n : Nat}

/-- The picture that frame `f` stands for: the header, as it is for this frame, and the data. -/
def Cam.jpeg (q : QTables) (c : Cam n) (f : Isoc.Frame) : List UInt8 :=
  (updateQTable q c f).jpgHd.bytes ++ f.bytes.drop TP6830_HEADER_SIZE

/-- The frame that was being filled is complete, and the one that is filled now is not. -/
def Session.completed (s : Session n) (bufs : Isoc.Buffers n) (i : Fin n) : Bool :=
  (s.complete i || s.cam.bufs.fillFrame = some i) && bufs.fillFrame ≠ some i

def Session.returns (s : Session n) (r : Req) (p : Got × Cam n) : Session n :=
  { s with cam := p.2, call := none, delivered := s.delivered ++ p.1.copied, last := some (r, p.1) }

def Session.enter (s : Session n) : Entry → Option (Session n)
  | .read r =>
      match videoReadEnter s.cam r with
      | .inl p => some (s.returns r p)
      | .inr c => some { s with cam := c, call := some (.read r) }
  | .sync mbuf image =>
      -- it waits for a frame
      if s.cam.bufs.full.head = none then none
      else
        some { s with
          cam := handleFrameGrab { s.cam with fillImage := mbuf }, call := some (.sync mbuf image) }

/-- The picture of the frame that is decompressed. -/
def Cam.picture (q : QTables) (c : Cam n) : List UInt8 :=
  ((c.bufs.readFrame.map fun i => c.jpeg q (c.bufs.fbuf i))).getD []

def Session.leave (q : QTables) (s : Session n) : Entry → Option (Session n)
  | .read r =>
      let s := { s with expected := s.expected ++ s.cam.picture q }
      match videoReadLeave q s.cam r with
      | none => some { s with last := some (r, ⟨none, []⟩) }
      | some p => some (s.returns r p)
  | .sync _ image => (handleFrameRest q image s.cam).map fun p => { s with cam := p.2, call := none }

def Session.step (q : QTables) (s : Session (n + 1)) : Act → Option (Session (n + 1))
  | .write f _ => (s.cam.bufs.step (.write f)).map fun b => { s with cam := { s.cam with bufs := b } }
  | .complete =>
      (s.cam.bufs.step .nextFillFrame).map fun b =>
        { s with cam := { s.cam with bufs := b }, complete := s.completed b }
  | .enter e => if s.call = none then s.enter e else none
  | .leave => s.call.bind (s.leave q)
  | .reset =>
      if s.call = none then some { s with cam := pwcResetBuffers s.cam, complete := fun _ => false } else none
  | .reopen =>
      if s.call = none then
        some { s with cam := { pwcResetBuffers s.cam with packetBufferTmp := 0 }, complete := fun _ => false }
      else none
  | .resize z =>
      if s.call = none then some { s with cam := { s.cam with jpgHd := s.cam.jpgHd.setSize z } } else none

/-- The driver right after it was loaded and the device opened. -/
def Session.init (bufs : Isoc.Buffers (n + 1)) (images : Fin 2 → List UInt8) (qTableIndex : BitVec 8)
    (jpgHd : Header) : Session (n + 1) where
  cam := ⟨bufs.pwcResetBuffers, images, 0, 0, qTableIndex, jpgHd, 0, 0⟩
  call := none
  complete := fun _ => false
  expected := []
  delivered := []
  last := none

end Sessions

end CameraFw.Pwc
