import CameraFw.Base.Extents
import CameraFw.Base.Loop

/-!
# Reads and writes of the NOR flash driver

`pl_nor_flash_read` and `pl_nor_flash_write` of `pl_nor.c`: a first part by programmed I/O, of as many
bytes as the buffer address is past a multiple of 16, the rest by DMA in chunks. `size_t` and addresses
have 32 bits, `loff_t` has 64. A transfer is kept as the pieces that were moved, from the flash to the
memory for a read and from the memory to the flash for a write.
-/

namespace CameraFw.Flash

open CameraFw.Base

/-- The results; `IOERR` is `-EIO`. -/
inductive Rc where
  | ok | EINVAL | ERESTARTSYS | EFAULT | IOERR
  deriving DecidableEq, Repr

/-- `DMA_MODE_READ` and `DMA_MODE_WRITE`. -/
inductive Mode where
  | read | write
  deriving DecidableEq, Repr

def Mode.dst (mode : Mode) (ram flash : BitVec 32) : BitVec 32 :=
  match mode with
  | .read => ram
  | .write => flash

def Mode.src (mode : Mode) (ram flash : BitVec 32) : BitVec 32 :=
  match mode with
  | .read => flash
  | .write => ram

def Mode.piece (mode : Mode) (ram flash : BitVec 32) (n : Nat) : Extent 32 :=
  ⟨mode.dst ram flash, mode.src ram flash, n⟩

/-! ## The DMA controller -/

structure Iovec where
  base : BitVec 32
  len : BitVec 32
  deriving DecidableEq, Repr

structure Mde where
  saddr : BitVec 32
  mde : BitVec 32
  deriving DecidableEq, Repr

def MDE_NXT_SHIFT : Nat := 21
def MDE_VALID_SHIFT : Nat := 30
def MDE_EMDE_SHIFT : Nat := 31

def MAX_DMA_CNT : BitVec 32 := 0x3fff00

/-- `MAX_SECTORS` of this file. -/
def MDE_MAX_ENTRY : Nat := 128

/-- The table that `pl_setup_dma` builds, and the total length it returns. -/
def setupDma (vecs : List Iovec) : List Mde × BitVec 32 :=
  let mdt := vecs.mapIdx fun i v =>
    ⟨v.base, v.len ||| (BitVec.ofNat 32 (i + 1) <<< MDE_NXT_SHIFT) ||| (1#32 <<< MDE_VALID_SHIFT)⟩
  (mdt.modify (vecs.length - 1) fun m => { m with mde := m.mde ||| (1#32 <<< MDE_EMDE_SHIFT) },
    (vecs.map (·.len)).sum)

/-- `MDT_FLAG_DCNT_MASK` of `dma.c`. -/
def Mde.dcnt (m : Mde) : Nat := (m.mde &&& 0x001FFFFF#32).toNat

/-- `MDT_FLAG_NEXT_MASK` and `MDT_FLAG_NXT_SHIFT`. -/
def Mde.next (m : Mde) : Nat := ((m.mde &&& 0x1FE00000#32) >>> MDE_NXT_SHIFT).toNat

/-- `MDT_FLAG_V`. -/
def Mde.valid (m : Mde) : Bool := m.mde &&& 0x40000000#32 != 0#32

/-- `MDT_FLAG_E` of `dma.c`. -/
def Mde.last (m : Mde) : Bool := m.mde &&& 0x80000000#32 != 0#32

/-- What the controller moves: for each entry, up to the one with the end bit, as many bytes as its
count field says. -/
def dmaMoves (mode : Mode) : List Mde → BitVec 32 → List (Extent 32)
  | [], _ => []
  | m :: mdt, addr =>
      mode.piece m.saddr addr m.dcnt ::
        if m.last then [] else dmaMoves mode mdt (addr + BitVec.ofNat 32 m.dcnt)

/-- The end of a DMA: the interrupt status that wakes the driver up, and the residue. -/
structure DmaEnd where
  intr : BitVec 8
  woken : intr ≠ 0
  residue : Nat
  deriving DecidableEq, Repr

def DmaEnd.ok (e : DmaEnd) : Bool := e.intr &&& 0x01 == 0 && e.residue == 0

/-- The controller reports a time-out by this bit, which is low then. -/
def timedOut (intr : BitVec 8) : Bool := intr &&& 0x08 == 0

/-! ## Programmed I/O -/

/-- The pieces moved by programmed I/O, and what each poll of the status reported. -/
structure Pio where
  log : List (Extent 32)
  polls : List Bool
  deriving DecidableEq, Repr

/-- The loop of `ppi_amd_pio_read`, with `remains`, `addr` and `p`. -/
def pioRead : Nat → BitVec 32 → BitVec 32 → List (Extent 32)
  | 0, _, _ => []
  | n + 4, addr, p => Mode.read.piece p addr 4 :: pioRead n (addr + 4) (p + 4)
  | n, addr, p => [Mode.read.piece p addr n]

def NOR_CMD_INTR_MASK : BitVec 8 := 1 <<< 2

/-- `pl_nor_polling_intr` on the values of the status register that it reads within its second. -/
def pollingIntr (intrBit expected : BitVec 8) : List (BitVec 8) → Bool
  | [] => false
  | s :: ss =>
      if timedOut s then false
      else if s &&& intrBit = expected then true
      else pollingIntr intrBit expected ss

/-- The loop of `ppi_amd_pio_write`; `polls k` is what the status register says during poll `k`. -/
def pioWrite (polls : Nat → List (BitVec 8)) : Nat → Nat → BitVec 32 → BitVec 32 → Pio
  | _, 0, _, _ => ⟨[], []⟩
  | k, n + 4, addr, p =>
      if pollingIntr NOR_CMD_INTR_MASK 0 (polls k) then
        let rest := pioWrite polls (k + 1) n (addr + 4) (p + 4)
        ⟨Mode.write.piece p addr 4 :: rest.log, true :: rest.polls⟩
      else ⟨[Mode.write.piece p addr 4], [false]⟩
  -- the last bytes are put into `val`, which is not written to `PIO_DATA_REG`
  | k, _, _, _ => ⟨[], [pollingIntr NOR_CMD_INTR_MASK 0 (polls k)]⟩

/-! ## Transfers -/

/-- What the outside world does during a call. -/
structure Env where
  interrupted : Bool
  polls : Nat → List (BitVec 8)
  dma : Nat → DmaEnd

/-- The variables of the DMA loop; `polls` and `ends` are what the polls and the DMAs so far have reported. -/
structure Xfer where
  bufNow : BitVec 32
  len : BitVec 32
  addr : BitVec 64
  retlen : BitVec 32
  rc : Rc
  log : List (Extent 32)
  polls : List Bool
  ends : List DmaEnd
  deriving DecidableEq, Repr

def Xfer.thisCnt (x : Xfer) : BitVec 32 := if x.len > MAX_DMA_CNT then MAX_DMA_CNT else x.len

def dmaPass (mode : Mode) (e : DmaEnd) (x : Xfer) : Pass Xfer Xfer :=
  if x.len = 0 then .leave x
  else
    let (mdt, total) := setupDma [⟨x.bufNow, x.thisCnt⟩]
    if total ≠ x.thisCnt then .leave { x with rc := .EFAULT }
    else
      .again {
        bufNow := x.bufNow + x.thisCnt
        len := x.len - x.thisCnt
        addr := x.addr + x.thisCnt.setWidth 64
        retlen := x.retlen + x.thisCnt
        rc := if e.ok then x.rc else .IOERR
        log := x.log ++ dmaMoves mode mdt (x.addr.setWidth 32)
        polls := x.polls
        ends := x.ends ++ [e] }

structure Result where
  rc : Rc
  retlen : Option (BitVec 32)
  log : List (Extent 32)
  polls : List Bool
  ends : List DmaEnd
  deriving DecidableEq, Repr

def Result.refused (rc : Rc) : Result := ⟨rc, none, [], [], []⟩

/-- `(unsigned long)buf_now & 0x0f`. -/
def pioLen (buf : BitVec 32) : BitVec 32 := buf &&& 0x0f

/-- The state at the head of the DMA loop. -/
def enter (pio : BitVec 32 → BitVec 32 → Nat → Pio) (pos : BitVec 64) (len buf : BitVec 32) : Xfer :=
  if pioLen buf ≠ 0 then
    let done := pio (pos.setWidth 32) buf (pioLen buf).toNat
    { bufNow := buf + pioLen buf
      len := len - pioLen buf
      addr := pos + (pioLen buf).setWidth 64
      retlen := pioLen buf
      rc := .ok
      log := done.log
      polls := done.polls
      ends := [] }
  else ⟨buf, len, pos, 0, .ok, [], [], []⟩

/-- The body that `pl_nor_flash_read` and `pl_nor_flash_write` share, for a chip of `size` bytes. -/
def transfer (mode : Mode) (pio : BitVec 32 → BitVec 32 → Nat → Pio) (size : BitVec 32) (pos : BitVec 64)
    (len buf : BitVec 32) (env : Env) : Option Result :=
  if (size.setWidth 64).slt (pos + len.setWidth 64) then some (.refused .EINVAL)
  else if env.interrupted then some (.refused .ERESTARTSYS)
  else
    (whileLoop (dmaPass mode) env.dma (2 ^ 32) 0 (enter pio pos len buf)).map fun x =>
      ⟨x.rc, some x.retlen, x.log, x.polls, x.ends⟩

/-- How the two functions move the first part; the result of `ppi_amd_pio_write` is not looked at. -/
def Mode.pio (mode : Mode) (env : Env) (addr p : BitVec 32) (n : Nat) : Pio :=
  match mode with
  | .read => ⟨pioRead n addr p, []⟩
  | .write => pioWrite env.polls 0 n addr p

/-- The result of `ppi_amd_pio_write` is not looked at. -/
def flashWrite (size : BitVec 32) (dest : BitVec 64) (len buf : BitVec 32) (env : Env) : Option Result :=
  transfer .write (fun addr p n => pioWrite env.polls 0 n addr p) size dest len buf env

end CameraFw.Flash
