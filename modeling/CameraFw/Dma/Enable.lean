import CameraFw.Flash.Transfer
import Mathlib.Logic.Function.Basic

/-!
# Starting a DMA channel

`pl_enable_dma` and `pl_disable_dma` of `dma.c`. A transfer that is no scatter list is cut into at most
four descriptors, whose layout is that of `Flash.Mde`. `int` has 32 bits, and a request has the bus
address of its buffer.
-/

namespace CameraFw.Dma

open CameraFw.Flash

def MAX_DMA_CHANNELS : Nat := 16
def MAX_DMA_MDT : Nat := 4
def MAX_DMA_MDT_COUNT : Nat := 2 ^ 21 - 16

def DMA_CHN_ENABLE : BitVec 8 := 1 <<< 7
def DMA_MODE_UPSTREAM : BitVec 8 := 1 <<< 6

structure Request where
  address : BitVec 32
  length : BitVec 32
  usingSg : Bool
  prolificSg : Bool
  mode : Mode
  deriving DecidableEq, Repr

/-- A channel: what the memory holds from its first descriptor on, where that is, and its registers. -/
structure Chan where
  mde : Nat → Mde
  base : BitVec 32
  idx : BitVec 8
  mdt : BitVec 32
  cmd : BitVec 8

/-- The word of descriptor `i` with a count of `dcnt`. -/
def flag (dcnt : BitVec 32) (i : Nat) : BitVec 32 :=
  dcnt ||| (BitVec.ofNat 32 (i + 1) <<< MDE_NXT_SHIFT) ||| (1#32 <<< MDE_VALID_SHIFT)

/-- What one descriptor takes of `count`. -/
def dcntOf (count : BitVec 32) : BitVec 32 :=
  if count.toInt > MAX_DMA_MDT_COUNT then BitVec.ofNat 32 MAX_DMA_MDT_COUNT else count

/-- Descriptor `i` is filled; `prev` is the count of the one before. -/
def fillMde (mde : Nat → Mde) (i : Nat) (prev dcnt : BitVec 32) : Nat → Mde :=
  let mde := if i > 0 then Function.update mde i { mde i with saddr := (mde (i - 1)).saddr + prev } else mde
  Function.update mde i { mde i with mde := flag dcnt i }

/-- The loop, of which `n` rounds are left at `i`: where it ends, and the descriptors. -/
def split : Nat → Nat → BitVec 32 → BitVec 32 → (Nat → Mde) → Nat × (Nat → Mde)
  | 0, i, _, _, mde => (i, mde)
  | n + 1, i, count, prev, mde =>
      let dcnt := dcntOf count
      let mde := fillMde mde i prev dcnt
      if count - dcnt = 0 then (i, mde) else split n (i + 1) (count - dcnt) dcnt mde

/-- The end bit, at the descriptor where the loop has ended. -/
def markLast (r : Nat × (Nat → Mde)) : Nat → Mde :=
  Function.update r.2 r.1 { r.2 r.1 with mde := (r.2 r.1).mde ||| (1#32 <<< MDE_EMDE_SHIFT) }

def buildMdt (mde : Nat → Mde) (dma : Request) : Nat → Mde :=
  markLast (split MAX_DMA_MDT 0 dma.length 0 (Function.update mde 0 { mde 0 with saddr := dma.address }))

/-- The command that starts the channel. -/
def Chan.start (s : Chan) (mode : Mode) : Chan :=
  let val := match mode with
    | .read => s.cmd ||| DMA_MODE_UPSTREAM
    | .write => s.cmd &&& ~~~DMA_MODE_UPSTREAM
  { s with cmd := val ||| DMA_CHN_ENABLE }

def enableDma (channel : Nat) (s : Chan) (dma : Request) : Chan :=
  if channel ≥ MAX_DMA_CHANNELS then s
  else if dma.usingSg = false then
    -- the address is stored before the length is looked at
    if dma.length.toInt > MAX_DMA_MDT * MAX_DMA_MDT_COUNT then
      { s with mde := Function.update s.mde 0 { s.mde 0 with saddr := dma.address } }
    else { s with mde := buildMdt s.mde dma, idx := 0, mdt := s.base }.start dma.mode
  else if dma.prolificSg then s.start dma.mode
  else s

def disableDma (channel : Nat) (s : Chan) : Chan :=
  if channel ≥ MAX_DMA_CHANNELS then s else { s with cmd := s.cmd &&& ~~~DMA_CHN_ENABLE }

/-! ## What a table says -/

/-- How many bytes the descriptors in front of `k` count. -/
def countBelow (mde : Nat → Mde) (k : Nat) : Nat := ((List.range k).map fun j => (mde j).dcnt).sum

/-- The first `n` descriptors say that `len` bytes from `address` on are to be moved, in one go. -/
structure Describes (mde : Nat → Mde) (n : Nat) (address : BitVec 32) (len : Nat) : Prop where
  count_le : ∀ k < n, (mde k).dcnt ≤ MAX_DMA_MDT_COUNT
  count_sum : countBelow mde n = len
  saddr : ∀ k < n, (mde k).saddr = address + BitVec.ofNat 32 (countBelow mde k)
  next : ∀ k < n, (mde k).next = k + 1
  valid : ∀ k < n, (mde k).valid = true
  last : ∀ k < n, ((mde k).last = true ↔ k + 1 = n)

end CameraFw.Dma
